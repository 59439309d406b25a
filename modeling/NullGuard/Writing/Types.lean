import NullGuard.Writing.Printed

/-!
# Printing types
-/

namespace NullGuard.Writing

open NullGuard.Tree Doc

/-- The mark of a mapped type in front of or behind a word. -/
def mappedMark (m : MappedMark) (w : String) : String :=
  match m with
  | .none => ""
  | .plain => w
  | .plus => "+" ++ w
  | .minus => "-" ++ w

/-- A key of a type member, in brackets if it is computed. -/
def memberKey (key : Printed) (isComputed : Bool) : Doc :=
  if isComputed then word "[" ++ key.doc ++ word "]" else key.doc

/-- Chunks of a template with documents between them. -/
def interleaved (chunks : List String) (ds : List Doc) : Doc :=
  match chunks, ds with
  | c :: cs, d :: ds =>
    word c ++ word "$\x7b" ++ d ++ word "\x7d" ++ interleaved cs ds
  | c :: _, [] => word c
  | [], _ => empty

/-- The document of a node in type position. -/
def typeDoc (form : TypeForm) (ps : List Printed) : Doc :=
  match form, ps with
  | .ascription, [t] => t.doc
  | .keyword w, _ => word w
  | .self, _ => word "this"
  | .function, [params, tps, t] =>
    tps.doc ++ inParens params.items ++ word "=>" ++ t.doc
  | .constructor isAbstract, [params, tps, t] =>
    mark isAbstract "abstract" ++ word "new" ++ space ++ tps.doc ++
      inParens params.items ++ word "=>" ++ t.doc
  | .reference, [n, args] => n.doc ++ args.doc
  | .qualified, [l, r] => l.doc ++ word "." ++ r.doc
  | .query, [n, args] => word "typeof" ++ space ++ n.doc ++ args.doc
  | .members, ms =>
    word "\x7b" ++ Doc.when (!ms.isEmpty)
      (lines empty (ms.map fun m => m.doc ++ word ";")) ++ word "\x7d"
  | .array, [t] => t.doc ++ word "[]"
  | .tuple, ts =>
    word "[" ++ Doc.when (!ts.isEmpty) (lines (word ",") (ts.map (·.doc))) ++
      word "]"
  | .tupleElement, [label, t] =>
    label.ifSome (fun d => d ++ word ":" ++ space) ++ t.doc
  | .optional, [t] => t.doc ++ word "?"
  | .rest, [t] => word "..." ++ t.doc
  | .union, ts => separated (space ++ word "|" ++ space) (ts.map (·.doc))
  | .intersection, ts => separated (space ++ word "&" ++ space) (ts.map (·.doc))
  | .conditional, [c, e, y, n] =>
    c.doc ++ space ++ word "extends" ++ space ++ e.doc ++ space ++ word "?" ++
      space ++ y.doc ++ space ++ word ":" ++ space ++ n.doc
  | .infer, [p] => word "infer" ++ space ++ p.doc
  | .paren, [t] => word "(" ++ t.doc ++ word ")"
  | .operator w, [t] => word w ++ space ++ t.doc
  | .indexed, [o, i] => o.doc ++ word "[" ++ i.doc ++ word "]"
  | .mapped isReadonly isOptional, [p, nameType, t] =>
    let param := match p.parts with
      | [n, bound, _] => n.doc ++ space ++ word "in" ++ space ++ bound.doc
      | _ => p.doc
    let asName := nameType.ifSome fun d => space ++ word "as" ++ space ++ d
    let body := mark (isReadonly != .none) (mappedMark isReadonly "readonly") ++
      word "[" ++ param ++ asName ++ word "]" ++
      word (mappedMark isOptional "?") ++ annotated t ++ word ";"
    word "\x7b" ++ lines empty [body] ++ word "\x7d"
  | .literal, [l] => l.doc
  | .template chunks, ts =>
    word "\x60" ++ interleaved chunks (ts.map (·.doc)) ++ word "\x60"
  | .predicate asserts, [n, t] =>
    mark asserts "asserts" ++ n.doc ++ t.ifSome fun d => space ++
      word "is" ++ space ++ d
  | .imported, [s, q, args] =>
    word "import(" ++ s.doc ++ word ")" ++
      q.ifSome (fun d => word "." ++ d) ++ args.doc
  | .params, ts => word "<" ++ commas (ts.map (·.doc)) ++ word ">"
  | .param isIn isOut isConst, [n, bound, default] =>
    mark isConst "const" ++ mark isIn "in" ++ mark isOut "out" ++ n.doc ++
      bound.ifSome (fun d => space ++ word "extends" ++ space ++ d) ++
      initialised default
  | .args, ts => word "<" ++ commas (ts.map (·.doc)) ++ word ">"
  | .callSignature, [params, t, tps] =>
    tps.doc ++ inParens params.items ++ annotated t
  | .constructSignature, [params, t, tps] =>
    word "new" ++ space ++ tps.doc ++ inParens params.items ++ annotated t
  | .propertySignature isReadonly isComputed isOptional, [key, t] =>
    mark isReadonly "readonly" ++ memberKey key isComputed ++
      Doc.when isOptional (word "?") ++ annotated t
  | .getterSignature isComputed, [key, t] =>
    word "get" ++ space ++ memberKey key isComputed ++ word "()" ++ annotated t
  | .setterSignature isComputed, [key, p] =>
    word "set" ++ space ++ memberKey key isComputed ++ word "(" ++
      p.doc ++ word ")"
  | .methodSignature isComputed isOptional, [key, params, t, tps] =>
    memberKey key isComputed ++ Doc.when isOptional (word "?") ++ tps.doc ++
      inParens params.items ++ annotated t
  | .indexSignature isReadonly isStatic, [params, t] =>
    mark isStatic "static" ++ mark isReadonly "readonly" ++ word "[" ++
      commas params.items ++ word "]" ++ annotated t
  | _, _ => empty

end NullGuard.Writing
