import Descent.Emission.Layout

/-!
# Emission in Rust

The emitted program needs nothing but the standard library. Patterns are byte strings, so every byte
can stand in one.
-/
namespace Descent.Emission.Rust

/-- Header, continuation type and escape marker. -/
def prelude (R : Ruleset) : List String :=
  opening R ++
  ["",
    "#![allow(non_snake_case, dead_code)]",
    "",
    "use std::env;",
    "use std::ffi::OsString;",
    "use std::process::ExitCode;",
    "",
    "type Rule = fn(&[u8], &Continuation<'_>) -> bool;",
    "",
    "/// " ++ continuationRemark] ++
  block "struct Continuation<'a>"
    ["pattern: &'a [u8],", "parent: Option<&'a Continuation<'a>>,"] ++
  ["", "const ESCAPE: u8 = " ++ String.ofList (rustByte R.escape) ++ ";"]

/-- Hands the rest of the input to the rule of `c`. -/
def call : List String :=
  blockThen "let next = Continuation" ["pattern,", "parent: continuation.parent,"] ";" ++
  blockThen "return match DISPATCH[c as usize]"
    ["Some(rule) => rule(input, &next),", "None => false,"] ";"

/-- What the matcher does with the next byte of a pattern before it compares it. -/
def decode : EscapeMode → List String
  | .literal =>
    opened "let c = if c == ESCAPE"
      (block "match pattern.split_first()"
        (block "Some((&literal, rest)) =>" ["pattern = rest;", "literal"] ++ ["None => break,"])) ++
    opened "\x7d else if c.is_ascii_uppercase()" call ++
    blockThen "\x7d else" ["c"] ";"
  | .skip =>
    block "if c == ESCAPE" ["continue;"] ++
    block "if c.is_ascii_uppercase()" call

/-- The routine that matches a pattern and then every enclosing obligation. -/
def matcher (R : Ruleset) : List String :=
  block "fn match_pattern(mut input: &[u8], continuation: &Continuation<'_>) -> bool"
    (["let mut pattern = continuation.pattern;"] ++
      block "while let Some((&c, rest)) = pattern.split_first()"
        (["pattern = rest;"] ++ decode R.mode ++
          block "match input.split_first()"
            ["Some((&head, tail)) if head == c => input = tail,", "_ => return false,"]) ++
      [""] ++
      block "match continuation.parent"
        ["Some(parent) => match_pattern(input, parent),", "None => input.is_empty(),"])

def table (r : Rule) : String :=
  "const ALTERNATIVES: [&[u8]; " ++ toString r.rights.length ++ "] = [" ++
    String.ofList (separated [',', ' '] (r.rights.map rustBytes)) ++ "];"

def rule (comments : Bool) (r : Rule) : List String :=
  remark r comments ++
  block ("fn " ++ routine r.symbol ++ "(input: &[u8], continuation: &Continuation<'_>) -> bool")
    ([table r] ++
      block "for pattern in ALTERNATIVES"
        (blockThen "let next = Continuation" ["pattern,", "parent: Some(continuation),"] ";" ++
          block "if match_pattern(input, &next)" ["return true;"]) ++
      ["false"])

def tableEntry (r : Rule) : String :=
  "table[" ++ String.ofList (rustByte r.symbol) ++ " as usize] = Some(" ++ routine r.symbol ++
    " as Rule);"

def dispatch (R : Ruleset) : List String :=
  blockThen "const DISPATCH: [Option<Rule>; 256] ="
    (["let mut table: [Option<Rule>; 256] = [None; 256];"] ++ R.rules.map tableEntry ++ ["table"])
    ";"

def entry (R : Ruleset) : List String :=
  block "fn recognize(input: &[u8]) -> bool"
    (blockThen "let outermost = Continuation" ["pattern: b\"\",", "parent: None,"] ";" ++
      [routine R.start ++ "(input, &outermost)"]) ++
  [""] ++
  block "fn main() -> ExitCode"
    (["let args: Vec<OsString> = env::args_os().collect();"] ++
      block "if args.len() != 2"
        ["let program = args",
          "    .first()",
          "    .map_or(\"recognizer\".into(), |program| program.to_string_lossy());",
          "eprintln!(\"Usage:\\n\\t\x7b\x7d input\", program);",
          "return ExitCode::from(2);"] ++
      [""] ++
      opened "if recognize(args[1].as_encoded_bytes())"
        ["println!(\"accept\");", "ExitCode::SUCCESS"] ++
      block "\x7d else" ["println!(\"reject\");", "ExitCode::FAILURE"])

def program (R : Ruleset) (comments : Bool) : Program :=
  ⟨prelude R, matcher R, R.rules.map (rule comments), dispatch R, entry R⟩

end Descent.Emission.Rust
