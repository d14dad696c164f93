/-
  File:      CMinusMinus/CommandLine.lean
  Subject:   The arguments of the compiler.

  The compiler takes one source file and the options `-h`, `-o OUTPUT`, `--check-only`, `-v`, in
  any order. A long option may be cut to any prefix that fits no other one. Short options may be
  written together, and a value may follow its option in the same argument, with or without an
  equals sign. After `--` all arguments are values.

  Reading goes in two steps. Each argument is first classed on its own (`Word.ofArguments`): a
  value, the separator, or an option with what is attached to it. The words are then taken from
  left to right (`take`).
-/
import CMinusMinus.Text.Digit
import CMinusMinus.Text.Quoted

namespace CMinusMinus.CommandLine

/-! ## 1. Options -/

/-- The options. -/
inductive Flag where
  | help
  | output
  | checkOnly
  | verbose
  deriving DecidableEq, Repr

namespace Flag

/-- The spellings of an option. -/
def spellings : Flag → List String
  | .help => ["-h", "--help"]
  | .output => ["-o"]
  | .checkOnly => ["--check-only"]
  | .verbose => ["-v", "--verbose"]

/-- The option takes a value. -/
def takesValue : Flag → Bool
  | .output => true
  | _ => false

/-- All options, in the order in which help lists them. -/
def all : List Flag := [.help, .output, .checkOnly, .verbose]

/-- Every spelling with its option. -/
def table : List (String × Flag) :=
  all.flatMap fun flag => flag.spellings.map fun spelling => (spelling, flag)

/-- The option of a spelling. -/
def ofSpelling? (spelling : String) : Option Flag := table.lookup spelling

/-- The name of an option in messages. -/
def name (flag : Flag) : String := String.intercalate "/" flag.spellings

end Flag

/-- What is wrong with the arguments. -/
inductive UsageError where
  | sourceMissing
  | unrecognized (arguments : List String)
  | valueMissing (flag : Flag)
  /-- Text attached to an option that takes no value. -/
  | valueIgnored (flag : Flag) (text : String)
  /-- A prefix of several long options. -/
  | ambiguous (argument : String) (spellings : List String)
  deriving DecidableEq, Repr

/-- The wording of a usage error. -/
def UsageError.message : UsageError → String
  | .sourceMissing => "the following arguments are required: source"
  | .unrecognized arguments =>
      "unrecognized arguments: " ++ String.intercalate " " arguments
  | .valueMissing flag => s!"argument {flag.name}: expected one argument"
  | .valueIgnored flag text =>
      s!"argument {flag.name}: ignored explicit argument {Text.quoted text}"
  | .ambiguous argument spellings =>
      s!"ambiguous option: {argument} could match " ++ String.intercalate ", " spellings

/-! ## 2. Words -/

/-- An option as it stands in an argument. -/
structure Mention where
  flag : Flag
  /-- It was written in its long form, with two dashes. -/
  long : Bool
  /-- What is attached to it. -/
  attached : Option (List Char)
  deriving DecidableEq, Repr

/-- An argument by what it can be. -/
inductive Word where
  | value (text : String)
  /-- The first `--`. -/
  | separator
  | option (mention : Mention)
  /-- An option that the compiler does not know. -/
  | unknown (text : String)
  deriving DecidableEq, Repr

/-- All characters are decimal digits, and there is at least one. -/
def isFigure (s : List Char) : Bool := !s.isEmpty && s.all fun c => (Text.decimal? c).isSome

/-- The characters after a dash denote a number: digits, with an optional fraction; a line feed at
    the end does not matter. -/
def isMagnitude (s : List Char) : Bool :=
  let body := if s.getLast? = some '\n' then s.dropLast else s
  let whole := body.takeWhile (· ≠ '.')
  match body.dropWhile (· ≠ '.') with
  | [] => isFigure whole
  | _ :: fraction => (whole.isEmpty || isFigure whole) && isFigure fraction

/-- A text before and after its first equals sign. -/
def splitAtEquals (s : List Char) : List Char × Option (List Char) :=
  match s.dropWhile (· ≠ '=') with
  | [] => (s, none)
  | _ :: after => (s.takeWhile (· ≠ '='), some after)

/-- The mentions that an argument with two dashes can mean: the options whose spelling it begins,
    with what stands after the equals sign. -/
def longCandidates (argument : List Char) : List (String × Mention) :=
  let parts := splitAtEquals argument
  (Flag.table.filter fun e => parts.1.isPrefixOf e.1.toList).map fun e =>
    (e.1, ⟨e.2, true, parts.2⟩)

/-- The mention of a short option with something attached. -/
def shortCandidates (argument : List Char) : List (String × Mention) :=
  (Flag.table.filter fun e => e.1.toList = argument.take 2).map fun e =>
    (e.1, ⟨e.2, false, some (argument.drop 2)⟩)

/-- An argument that starts with a dash, is more than that, and is no spelling of an option. -/
def guess (argument : String) : Except UsageError Word :=
  let s := argument.toList
  let candidates :=
    if s.take 2 = ['-', '-'] then longCandidates s else shortCandidates s
  match candidates with
  | [(_, mention)] => .ok (.option mention)
  | [] =>
      if isMagnitude (s.drop 1) || s.contains ' ' then .ok (.value argument)
      else .ok (.unknown argument)
  | _ => .error (.ambiguous argument (candidates.map (·.1)))

/-- Whether a spelling is long. -/
def isLong (spelling : List Char) : Bool := spelling.take 2 = ['-', '-']

/-- An argument before the separator. -/
def Word.ofArgument (argument : String) : Except UsageError Word :=
  let s := argument.toList
  if s.head? ≠ some '-' then .ok (.value argument)
  else match Flag.ofSpelling? argument with
    | some flag => .ok (.option ⟨flag, isLong s, none⟩)
    | none =>
        if s.length = 1 then .ok (.value argument)
        else match splitAtEquals s with
          | (spelling, some attached) =>
              match Flag.ofSpelling? (String.ofList spelling) with
              | some flag => .ok (.option ⟨flag, isLong spelling, some attached⟩)
              | none => guess argument
          | (_, none) => guess argument

/-- The arguments as words. -/
def Word.ofArguments : List String → Except UsageError (List Word)
  | [] => .ok []
  | argument :: rest =>
      if argument = "--" then .ok (.separator :: rest.map .value)
      else match Word.ofArgument argument with
        | .error e => .error e
        | .ok word => (Word.ofArguments rest).map (word :: ·)

/-! ## 3. Taking the words -/

/-- What the arguments ask for. -/
structure Options where
  source : Option String := none
  output : Option String := none
  checkOnly : Bool := false
  verbose : Bool := false
  /-- Help is wanted; nothing else matters then. -/
  help : Bool := false
  /-- The arguments that nothing was made of. -/
  extras : List String := []
  deriving DecidableEq, Repr

namespace Options

/-- An option without a value takes effect. -/
def switch (o : Options) : Flag → Options
  | .help => { o with help := true }
  | .checkOnly => { o with checkOnly := true }
  | .verbose => { o with verbose := true }
  | .output => o

/-- The output file is named; the separator is no name. -/
def setOutput (o : Options) (text : String) : Options :=
  { o with output := if text = "--" then none else some text }

end Options

/-- What the short options of one argument come to: the options after them, and the option that
    still wants a value from the next argument. -/
abbrev Bundle := Options × Option Flag

/-- Takes an option and what is attached to it. Behind a short option without a value further
    short options may be attached. -/
def takeMention (o : Options) (flag : Flag) (long : Bool) : Option (List Char) →
    Except UsageError Bundle
  | none => if flag.takesValue then .ok (o, some flag) else .ok (o.switch flag, none)
  | some text =>
      if flag.takesValue then .ok (o.setOutput (String.ofList text), none)
      else if long then .error (.valueIgnored flag (String.ofList text))
      else attachedFlags (o.switch flag) flag text
where
  /-- The short options attached to `flag`. -/
  attachedFlags (o : Options) (flag : Flag) : List Char → Except UsageError Bundle
    | [] => .error (.valueIgnored flag "")
    | c :: rest =>
        match Flag.ofSpelling? (String.ofList ['-', c]) with
        | none => .error (.valueIgnored flag (String.ofList (c :: rest)))
        | some next =>
            match rest with
            | [] => if next.takesValue then .ok (o, some next) else .ok (o.switch next, none)
            | _ :: _ =>
                if next.takesValue then .ok (o.setOutput (String.ofList rest), none)
                else attachedFlags (o.switch next) next rest

/-- Takes the words from left to right. The first value is the source, and a separator right
    before or after it belongs to it; all further values are left over. -/
def take (o : Options) : List Word → Except UsageError Options
  | [] => .ok o
  | .unknown text :: rest => take { o with extras := o.extras ++ [text] } rest
  | .value text :: .separator :: rest =>
      if o.source.isNone then take { o with source := some text } rest
      else take { o with extras := o.extras ++ [text] } (.separator :: rest)
  | .value text :: rest =>
      if o.source.isNone then take { o with source := some text } rest
      else take { o with extras := o.extras ++ [text] } rest
  | .separator :: .value text :: rest =>
      if o.source.isNone then take { o with source := some text } rest
      else take { o with extras := o.extras ++ ["--"] } (.value text :: rest)
  | .separator :: rest => take { o with extras := o.extras ++ ["--"] } rest
  | .option mention :: rest =>
      match takeMention o mention.flag mention.long mention.attached with
      | .error e => .error e
      | .ok (o', none) => if o'.help then .ok o' else take o' rest
      | .ok (o', some flag) =>
          match rest with
          | .value text :: rest' =>
              if o'.help then .ok o' else take (o'.setOutput text) rest'
          | _ => .error (.valueMissing flag)

/-- A command: what the compiler is asked to do. -/
inductive Command where
  | help
  | build (source : String) (output : Option String) (checkOnly verbose : Bool)
  deriving DecidableEq, Repr

/-- Reads the arguments. A missing source is worse than arguments that are left over. -/
def Command.ofArguments (arguments : List String) : Except UsageError Command :=
  match Word.ofArguments arguments with
  | .error e => .error e
  | .ok words =>
      match take {} words with
      | .error e => .error e
      | .ok o =>
          if o.help then .ok .help
          else match o.source with
            | none => .error .sourceMissing
            | some source =>
                if o.extras.isEmpty then .ok (.build source o.output o.checkOnly o.verbose)
                else .error (.unrecognized o.extras)

end CMinusMinus.CommandLine
