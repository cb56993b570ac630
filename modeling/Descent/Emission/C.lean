import Descent.Emission.Layout

/-!
# Emission in C

The emitted program is C99. Patterns are string literals that a NUL ends, so the symbol NUL cannot
stand in one.
-/
namespace Descent.Emission.C

def routineHead (s : Symbol) : String :=
  "static bool " ++ routine s ++ "(const char *input, const struct continuation *continuation)"

/-- Header, continuation type, escape marker and the declarations of the routines. -/
def prelude (R : Ruleset) : List String :=
  opening R ++
  ["",
    "#include <stdbool.h>",
    "#include <stddef.h>",
    "#include <stdio.h>",
    "",
    "#define ESCAPE " ++ String.ofList (cChar R.escape),
    "",
    "// " ++ continuationRemark] ++
  blockThen "struct continuation"
    ["const char *pattern;", "const struct continuation *parent;"] ";" ++
  ["",
    "typedef bool (*rule_fn)(const char *input, const struct continuation *continuation);",
    ""] ++
  R.rules.map (fun r => routineHead r.symbol ++ ";") ++
  ["static const rule_fn dispatch[256];"]

/-- Hands the rest of the input to the rule of `c`. -/
def call : List String :=
  ["struct continuation next = \x7b pattern, continuation->parent \x7d;",
    "rule_fn rule = dispatch[(unsigned char) c];",
    "return rule ? rule(input, &next) : false;"]

/-- What the matcher does with the next byte of a pattern before it compares it. -/
def decode : EscapeMode → List String
  | .literal =>
    opened "if (c == ESCAPE)" ["if (!*pattern)", "    break;", "c = *pattern++;"] ++
    block "\x7d else if (c >= 'A' && c <= 'Z')" call
  | .skip =>
    ["if (c == ESCAPE)", "    continue;", ""] ++
    block "if (c >= 'A' && c <= 'Z')" call

/-- The routine that matches a pattern and then every enclosing obligation. -/
def matcher (R : Ruleset) : List String :=
  function
    "static bool match_pattern(const char *input, const struct continuation *continuation)"
    (["const char *pattern = continuation->pattern;", ""] ++
      block "while (*pattern)"
        (["char c = *pattern++;", ""] ++ decode R.mode ++
          ["", "if (*input != c)", "    return false;", "input++;"]) ++
      ["",
        "if (continuation->parent)",
        "    return match_pattern(input, continuation->parent);",
        "",
        "return *input == '\\0';"])

/-- The array of a rule's right-hand sides; a null pointer ends it. -/
def table (r : Rule) : String :=
  "static const char *const alternatives[] = \x7b " ++
    String.ofList (r.rights.flatMap fun rhs => cString rhs ++ [',', ' ']) ++ "NULL \x7d;"

def rule (comments : Bool) (r : Rule) : List String :=
  remark r comments ++
  function (routineHead r.symbol)
    ([table r, ""] ++
      block
        "for (const char *const *alternative = alternatives; *alternative; alternative++)"
        ["struct continuation next = \x7b *alternative, continuation \x7d;",
          "if (match_pattern(input, &next))",
          "    return true;"] ++
      ["", "return false;"])

def tableEntry (r : Rule) : String :=
  "[0x" ++ String.ofList (Text.hexPair r.symbol) ++ "] = " ++ routine r.symbol ++ ","

def dispatch (R : Ruleset) : List String :=
  blockThen "static const rule_fn dispatch[256] =" (R.rules.map tableEntry) ";"

def entry (R : Ruleset) : List String :=
  function "bool recognize(const char *input)"
    ["struct continuation outermost = \x7b \"\", NULL \x7d;",
      "return " ++ routine R.start ++ "(input, &outermost);"] ++
  [""] ++
  function "int main(int argc, char **argv)"
    (block "if (argc != 2)"
        ["fprintf(stderr, \"Usage:\\n\\t%s input\\n\", argv[0]);", "return 2;"] ++
      [""] ++
      block "if (recognize(argv[1]))" ["puts(\"accept\");", "return 0;"] ++
      ["", "puts(\"reject\");", "return 1;"])

def program (R : Ruleset) (comments : Bool) : Program :=
  ⟨prelude R, matcher R, R.rules.map (rule comments), dispatch R, entry R⟩

end Descent.Emission.C
