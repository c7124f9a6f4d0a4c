import ImportResolution.Text

/-! The arguments of a call. Switches may stand before or behind the verb that they belong to, each at
most once, and short ones may be written together. -/
namespace ImportResolution

inductive Switch
  | config | debug | quiet | help | version
  | force
  | imports | out | noCache | rebuild | noIndex | threads
  deriving DecidableEq, Repr

namespace Switch

def long : Switch → String
  | config => "config"
  | debug => "debug"
  | quiet => "quiet"
  | help => "help"
  | version => "version"
  | force => "force"
  | imports => "imports"
  | out => "out"
  | noCache => "no-cache"
  | rebuild => "rebuild"
  | noIndex => "no-fs-index"
  | threads => "threads"

def short? : Switch → Option Char
  | config => some 'c'
  | quiet => some 'q'
  | help => some 'h'
  | version => some 'V'
  | force => some 'f'
  | imports => some 'i'
  | out => some 'o'
  | threads => some 't'
  | _ => none

def takesValue : Switch → Bool
  | config | imports | out | threads => true
  | _ => false

def everywhere : List Switch := [config,debug,quiet,help]

end Switch

inductive Verb
  | init | config | resolve | fsIndex
  deriving DecidableEq, Repr

namespace Verb

def all : List Verb := [init,config,resolve,fsIndex]

def name : Verb → String
  | init => "init"
  | config => "config"
  | resolve => "resolve"
  | fsIndex => "fs-index"

def ofName? (s : String) : Option Verb := all.find? fun v => v.name == s

def switches : Verb → List Switch
  | init => [.force]
  | resolve => [.imports,.out,.noCache,.rebuild,.noIndex,.threads]
  | _ => []

/-- How many places the verb takes: none, or the root of a repository. -/
def placeCount : Verb → Nat
  | resolve | fsIndex => 1
  | _ => 0

end Verb

structure ResolveOptions where
  imports : String
  out : Option String := none
  useCache : Bool := true
  rebuild : Bool := false
  useIndex : Bool := true
  deriving DecidableEq, Repr

inductive Command
  | init (force : Bool)
  | config
  | resolve (root : String) (options : ResolveOptions)
  | fsIndex (root : String)
  deriving DecidableEq, Repr

structure Invocation where
  configPath : Option String
  debug : Bool
  command : Command
  deriving DecidableEq, Repr

/-- Why no command comes out of the arguments. -/
inductive Refusal
  | usage
  | help
  | version
  deriving DecidableEq, Repr

namespace Arguments

/-- What was read at one level: before the verb, or behind it. -/
structure Level where
  given : List (Switch × String) := []
  places : List String := []

def Level.has (l : Level) (s : Switch) : Bool := (l.given.lookup s).isSome

/-- Digits that fit a word, with perhaps a plus sign. -/
def isCount (s : String) : Bool :=
  let ds := match s.toList with
    | '+' :: r => r
    | r => r
  !ds.isEmpty && ds.all Char.isDigit && ds.foldl (fun n c => n*10 + (c.toNat - 48)) 0 < Nat.pow 2 64

/-- No value is empty, and the number of threads is a number. -/
def isValue (s : Switch) (value : String) : Bool :=
  s.takesValue && value != "" && (s != .threads || isCount value)

/-- A switch has a value just when it takes one, and stands once. -/
def record (l : Level) (s : Switch) (value : Option String) : Except Refusal Level :=
  if !(value.map (isValue s)).getD (!s.takesValue) then .error .usage
  else if s = .help then .error .help
  else if s = .version then .error .version
  else if l.has s then .error .usage
  else .ok { l with given := (s,value.getD "") :: l.given }

/-- Short switches written together. The one that still waits for its value, if any, comes last. -/
def readShort (known : List Switch) (l : Level) : List Char → Except Refusal (Level × Option Switch)
  | [] => .ok (l,none)
  | c :: r =>
    match known.find? fun s => s.short? == some c with
    | none => .error .usage
    | some s =>
      if s.takesValue then
        match r with
        | [] => .ok (l,some s)
        | '=' :: v => (record l s (some (String.ofList v))).map (·,none)
        | v => (record l s (some (String.ofList v))).map (·,none)
      else do readShort known (← record l s none) r

/-- A long switch, with the value behind an equality sign. -/
def readLong (known : List Switch) (l : Level) (arg : String) :
    Except Refusal (Level × Option Switch) :=
  let (name,value) := match Text.cut? "=" arg with
    | some (name,value) => (name,some value)
    | none => (arg,none)
  match known.find? fun s => s.long == name with
  | none => .error .usage
  | some s =>
    if s.takesValue && value.isNone then .ok (l,some s) else (record l s value).map (·,none)

def helpVerb : String := "help"

/-- Help is about all, about one verb, or about itself. -/
def isHelpPath : List String → Bool
  | [] => true
  | [arg] => arg = helpVerb || (Verb.ofName? arg).isSome
  | _ => false

def looksLikeSwitch (arg : String) : Bool := Text.startsWith "-" arg && arg != "-"

/-- One argument that looks like a switch. -/
def readSwitch (known : List Switch) (l : Level) (arg : String) :
    Except Refusal (Level × Option Switch) :=
  match Text.afterHead? "--" arg with
  | some rest => readLong known l rest
  | none => readShort known l (arg.toList.drop 1)

/-- What stands where: only verbs, or so many places. -/
inductive Plain
  | verbs
  | places (count : Nat)

/-- Reads a level up to a verb, if verbs are looked for, or to the end. Behind two dashes nothing is a
switch or verb. Of two faults the first counts. -/
def readLevel (known : List Switch) (plain : Plain) (bare : Bool) (l : Level) :
    List String → Except Refusal (Level × Option (Verb × List String))
  | [] => .ok (l,none)
  | arg :: r =>
    if !bare && arg = "--" then readLevel known plain true l r
    else if !bare && looksLikeSwitch arg then
      match readSwitch known l arg, r with
      | .error e, _ => .error e
      | .ok (l,none), r => readLevel known plain bare l r
      | .ok (_,some _), [] => .error .usage
      | .ok (l,some s), value :: r =>
        if looksLikeSwitch value then .error .usage
        else
          match record l s (some value) with
          | .error e => .error e
          | .ok l => readLevel known plain bare l r
    else
      match plain with
      | .verbs =>
        if bare then .error .usage
        else if arg = helpVerb then .error (if isHelpPath r then .help else .usage)
        else
          match Verb.ofName? arg with
          | some v => .ok (l,some (v,r))
          | none => .error .usage
      | .places count =>
        if arg = "" || count ≤ l.places.length then .error .usage
        else readLevel known plain bare { l with places := l.places ++ [arg] } r

/-- What is read behind a verb. The number of threads changes no result. -/
def commandOf (v : Verb) (l : Level) : Except Refusal Command :=
  match v, l.places with
  | .init, [] => .ok (.init (l.has .force))
  | .config, [] => .ok .config
  | .fsIndex, [root] => .ok (.fsIndex root)
  | .resolve, [root] =>
    match l.given.lookup .imports with
    | none => .error .usage
    | some imports =>
      if l.has .noCache && l.has .rebuild then .error .usage
      else
        .ok (.resolve root
          { imports
            out := l.given.lookup .out
            useCache := !l.has .noCache
            rebuild := l.has .rebuild
            useIndex := !l.has .noIndex })
  | _, _ => .error .usage

/-- Behind the verb a switch counts more than before it. -/
def read (args : List String) : Except Refusal Invocation :=
  match readLevel (.version :: Switch.everywhere) .verbs false {} args with
  | .error e => .error e
  | .ok (_,none) => .error .usage
  | .ok (outer,some (v,r)) =>
    match readLevel (v.switches ++ Switch.everywhere) (.places v.placeCount) false {} r with
    | .error e => .error e
    | .ok (inner,_) => (commandOf v inner).map fun command =>
      ⟨(inner.given.lookup .config).or (outer.given.lookup .config),
        inner.has .debug || outer.has .debug,command⟩

end Arguments
end ImportResolution
