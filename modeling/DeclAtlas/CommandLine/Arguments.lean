import DeclAtlas.Settings.Basic

/-!
# Arguments

What the arguments of a run ask for.  The first argument names a command; options and words
follow it in any order.  An option takes its value from behind an equals sign or from the next
argument, and is only settled when the next option or word is reached: until then a missing
value or a repetition is no error, so that an argument that cannot be read at all is reported
first.
-/

namespace DeclAtlas.CommandLine

-- ── Commands ─────────────────────────────────────────────────────────────────────

/-- What is asked about a source tree. -/
inductive Question
  | modules
  | resolve (typeName module : String)
  | members (typeName module : String)
  | path (typeName path module : String)
deriving DecidableEq, Repr

/-- What a run is to do. -/
inductive Command
  /-- Tell the name and version of the program. -/
  | banner
  /-- Tell the version of the program. -/
  | version
  | ask (given : Overrides) (question : Question)
deriving DecidableEq, Repr

/-- Why arguments ask for nothing that can be done. -/
inductive UsageError
  | noArguments
  | unexpectedArgument
  | unknownCommand
  | missingArgument
  | missingValue
  | repeatedOption
  | unexpectedValue
deriving DecidableEq, Repr

/-- The line that tells of an error; an empty one if there are no arguments. -/
def UsageError.message : UsageError → String
  | noArguments => ""
  | unexpectedArgument => "error: unexpected argument found"
  | unknownCommand => "error: unrecognized subcommand"
  | missingArgument => "error: one or more required arguments were not provided"
  | missingValue => "error: one of the values isn't valid for an argument"
  | repeatedOption =>
    "error: an argument cannot be used with one or more of the other specified arguments"
  | unexpectedValue => "error: unexpected value for an argument found"

/-- An option that takes a value. -/
inductive ValueOption
  | root
  | source
  | typings
  | output
  | module
deriving DecidableEq, Repr

namespace ValueOption

/-- The name of an option. -/
def name : ValueOption → String
  | root => "repo-root"
  | source => "source"
  | typings => "typings"
  | output => "output"
  | module => "module"

/-- An option that may be given more than once. -/
def repeatable : ValueOption → Bool
  | source | typings => true
  | root | output | module => false

end ValueOption

/-- What may follow the name of a command. -/
structure Form where
  /-- The options with values. -/
  options : List ValueOption
  /-- There is an option that asks for a log. -/
  logged : Bool
  /-- The number of words. -/
  words : Nat
deriving DecidableEq, Repr

/-- The options of every command that reads a source tree. -/
def treeOptions : List ValueOption := [.root, .source, .typings, .output]

/-- The commands. -/
inductive CommandName
  | version
  | modules
  | resolve
  | members
  | query
deriving DecidableEq, Repr

namespace CommandName

/-- The word for a command. -/
def word : CommandName → String
  | version => "version"
  | modules => "modules"
  | resolve => "resolve"
  | members => "members"
  | query => "query"

/-- The command of a word. -/
def ofWord? (s : String) : Option CommandName :=
  [version, modules, resolve, members, query].find? (·.word == s)

/-- What may follow the name of a command.  A command that starts from a module has an option
    for it. -/
def form : CommandName → Form
  | version => ⟨[], false, 0⟩
  | modules => ⟨treeOptions, true, 0⟩
  | resolve | members => ⟨.module :: treeOptions, true, 1⟩
  | query => ⟨.module :: treeOptions, true, 2⟩

end CommandName

-- ── Reading ──────────────────────────────────────────────────────────────────────

/-- What has been read of the arguments behind a command. -/
structure Reading where
  /-- Options that are settled, in order. -/
  given : List (ValueOption × String)
  logged : Bool
  words : List String
  /-- The option that was read last, with its value if that has come. -/
  pending : Option (ValueOption × Option String)
  /-- Only words follow. -/
  wordsOnly : Bool
deriving DecidableEq, Repr

namespace Reading

def empty : Reading := ⟨[], false, [], none, false⟩

/-- The values given for an option. -/
def values (r : Reading) (o : ValueOption) : List String :=
  (r.given.filter (·.1 == o)).map (·.2)

/-- Settles an option with its value. -/
def put (r : Reading) (o : ValueOption) (value : String) : Except UsageError Reading :=
  if !o.repeatable && !(r.values o).isEmpty then .error .repeatedOption
  else .ok { r with given := r.given ++ [(o, value)] }

/-- Settles the option that was read last. -/
def settle (r : Reading) : Except UsageError Reading :=
  match r.pending with
  | none => .ok r
  | some (_, none) => .error .missingValue
  | some (o, some value) => { r with pending := none }.put o value

/-- Asks for a log. -/
def log (r : Reading) : Except UsageError Reading := do
  let r ← r.settle
  if r.logged then .error .repeatedOption else pure { r with logged := true }

/-- A word. -/
def word (form : Form) (r : Reading) (arg : String) : Except UsageError Reading :=
  if form.words ≤ r.words.length then .error .unexpectedArgument
  else do
    let r ← r.settle
    pure { r with words := r.words ++ [arg] }

/-- The name of a long option and what stands behind its equals sign. -/
def splitValue (cs : List Char) : String × Option String :=
  let name := String.ofList (cs.takeWhile (· != '='))
  match cs.dropWhile (· != '=') with
  | [] => (name, none)
  | _ :: value => (name, some (String.ofList value))

/-- An option that begins with two hyphens. -/
def longOption (form : Form) (r : Reading) (cs : List Char) : Except UsageError Reading :=
  let (name, value) := splitValue cs
  if form.logged && name == "verbose" then
    if value.isSome then .error .unexpectedValue else r.log
  else
    match form.options.find? (·.name == name), value with
    | some o, some value => do (← r.settle).put o value
    | some o, none => do pure { ← r.settle with pending := some (o, none) }
    | none, _ => .error .unexpectedArgument

/-- Options of one character behind one hyphen. -/
def shortOptions (form : Form) (r : Reading) (cs : List Char) : Except UsageError Reading :=
  cs.foldlM (fun r c => if form.logged && c == 'v' then r.log else .error .unexpectedArgument) r

/-- The next argument. -/
def step (form : Form) (r : Reading) (arg : String) : Except UsageError Reading :=
  if r.wordsOnly then r.word form arg
  else
    match arg.toList with
    | ['-', '-'] => .ok { r with wordsOnly := true }
    | '-' :: '-' :: cs => r.longOption form cs
    | '-' :: c :: cs => r.shortOptions form (c :: cs)
    | _ =>
      match r.pending with
      | some (o, none) => .ok { r with pending := some (o, some arg) }
      | _ => r.word form arg

/-- All arguments behind a command. -/
def ofArguments (form : Form) (args : List String) : Except UsageError Reading := do
  let r ← args.foldlM (step form) .empty
  r.settle

/-- The settings given. -/
def overrides (r : Reading) : Overrides where
  root := (r.values .root).head?
  sources := r.values .source
  typings := r.values .typings
  output := (r.values .output).head?

/-- The question of a command, if all that it needs was given. -/
def question? (r : Reading) (c : CommandName) : Option Question :=
  match c, r.words, r.values .module with
  | .modules, [], _ => some .modules
  | .resolve, [t], [m] => some (.resolve t m)
  | .members, [t], [m] => some (.members t m)
  | .query, [t, p], [m] => some (.path t p m)
  | _, _, _ => none

end Reading

/-- What arguments ask for. -/
def Command.ofArguments : List String → Except UsageError Command
  | [] => .error .noArguments
  | arg :: args =>
    match CommandName.ofWord? arg with
    | some c => do
      let r ← Reading.ofArguments c.form args
      match c, r.question? c with
      | .version, _ => pure .version
      | _, some q => pure (.ask r.overrides q)
      | _, none => .error .missingArgument
    | none =>
      match arg.toList, args with
      | ['-', '-'], [] => .error .noArguments
      | ['-', '-'], next :: _ =>
        if (CommandName.ofWord? next).isSome then .error .unexpectedArgument
        else .error .unknownCommand
      | '-' :: '-' :: cs, _ =>
        match Reading.splitValue cs with
        | ("version", none) => pure .banner
        | ("version", some _) => .error .unexpectedValue
        | _ => .error .unexpectedArgument
      | '-' :: 'V' :: _, _ => pure .banner
      | '-' :: _ :: _, _ => .error .unexpectedArgument
      | _, _ => .error .unknownCommand

end DeclAtlas.CommandLine
