import NullGuard.Writing.Printed

/-!
# Printing markup

Markup is written without spaces of its own, and the text between tags as it
stands.
-/

namespace NullGuard.Writing

open NullGuard.Tree Doc

/-- The document of a node of markup. -/
def markupDoc (form : MarkupForm) (ps : List Printed) : Doc :=
  match form, ps with
  | .element, [opening, contents, closing] =>
    opening.doc ++ concat contents.items ++ closing.doc
  | .fragment, contents =>
    word "<>" ++ concat (contents.map (·.doc)) ++ word "</>"
  | .opening isSelfClosing, [n, attrs, args] =>
    word "<" ++ n.doc ++ args.doc ++ concat (attrs.parts.map fun a =>
      space ++ match a.kind with
        | .spread => word "\x7b" ++ a.doc ++ word "\x7d"
        | _ => a.doc) ++
      word (if isSelfClosing then "/>" else ">")
  | .closing, [n] => word "</" ++ n.doc ++ word ">"
  | .attribute, [n, value] => n.doc ++ value.ifSome fun d => word "=" ++ d
  | .text raw, _ => word raw
  | .container, [e] => word "\x7b" ++ e.doc ++ word "\x7d"
  | .spread, [e] => word "\x7b..." ++ e.doc ++ word "\x7d"
  | .name n, _ => word n
  | .member, [object, property] => object.doc ++ word "." ++ property.doc
  | .spaced first second, _ => word (first ++ ":" ++ second)
  | _, _ => empty

end NullGuard.Writing
