import NullGuard.Diagnostics.Diagnostic

/-!
# Explanations of the codes

What a code means, an example of what it is given for, and what to do about it.
-/

namespace NullGuard.Diagnostics

/-- What there is to say about a code. -/
structure Explanation where
  title : String
  description : String
  example? : Option String := none
  suggestion? : Option String := none
  related : List Code := []
deriving Repr

/-- The explanation of each code. -/
def Code.explanation : Code → Explanation
  | parseError =>
    { title := "Parse Error"
      description :=
        "The parser encountered invalid syntax. The file is not rewritten."
      example? := some "let x = ;  // Missing value"
      suggestion? :=
        some ("Fix the syntax error. TypeScript files need a .ts/.tsx " ++
          "extension to be parsed as TypeScript.") }
  | arityMismatch =>
    { title := "Wrong Number of Arguments"
      description :=
        "The `idx` function takes exactly two arguments: the object to " ++
        "start from and an arrow function describing the path."
      example? := some "idx(props);  // Missing the accessor"
      suggestion? := some "idx(props, _ => _.user.name)"
      related := [invalidAccessor] }
  | invalidAccessor =>
    { title := "Invalid Accessor"
      description :=
        "The second argument must be an arrow function with a single " ++
        "identifier\n" ++
        "parameter and an expression body made only of property accesses " ++
        "(and, unless\n" ++
        "strict chains are enabled, calls) starting from that parameter."
      example? :=
        some ("idx(a, _ => \x7b return _.b; \x7d)  // Block body\n" ++
          "idx(a, (x, y) => x.b)          // Two parameters\n" ++
          "idx(a, _ => other.b)           " ++
          "// Does not start from the parameter\n" ++
          "idx(a, _ => _.b + 1)           // Not a property access")
      suggestion? := some "idx(a, _ => _.b.c[0].d())"
      related := [arityMismatch] }
  | invalidHelperImport =>
    { title := "Invalid Helper Import"
      description :=
        "The helper must be imported as a single default value import. " ++
        "Named, namespace, side-effect and type-only imports of the helper " ++
        "module are rejected."
      example? :=
        some ("import \x7b idx \x7d from 'idx';\n" ++
          "import type idx from 'idx';\n" ++ "import 'idx';")
      suggestion? := some "import idx from 'idx';"
      related := [helperRedefined] }
  | helperRedefined =>
    { title := "Helper Redefined"
      description :=
        "A helper binding is assigned to or declared again after it was " ++
        "imported or required. Every call would have to be rewritten " ++
        "against a value that is not the helper."
      example? :=
        some ("const idx = require('idx');\n" ++
          "idx = other;  // Redefinition")
      suggestion? := some "Use a different name for the other value."
      related := [invalidHelperImport] }
  | untransformedReference =>
    { title := "Helper Used Other Than as a Call"
      description :=
        "The helper is referenced somewhere other than as the callee of a " ++
        "call,\n" ++
        "for example passed as a value or exported. Calls are still " ++
        "rewritten, but the\n" ++
        "import or require has to stay so that reference keeps working."
      example? := some "export default idx;"
      suggestion? :=
        some "Call the helper directly if the import should be removed."
      related := [unrecognizedRequire] }
  | unrecognizedRequire =>
    { title := "Unrecognized Require"
      description :=
        "The helper module is required into something other than a plain " ++
        "identifier, so calls through it are not rewritten."
      example? := some "const \x7b default: idx \x7d = require('idx');"
      suggestion? := some "const idx = require('idx');"
      related := [untransformedReference] }
  | ioError =>
    { title := "I/O Error"
      description :=
        "A source file could not be read or an output file could not be " ++
        "written."
      suggestion? :=
        some "Check that the path exists and is readable (or writable)." }

end NullGuard.Diagnostics
