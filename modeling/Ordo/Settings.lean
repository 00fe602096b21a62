import Ordo.Archive.Library
import Ordo.Journal.Level

namespace Ordo

structure Settings where
  root     : String
  language : String
  level    : Journal.Level
deriving DecidableEq, Repr

inductive SettingsError
  | missing (name hint : String)
  | invalidLanguage (tag : String)
  | invalidLevel (name : String)
deriving DecidableEq, Repr

namespace Settings

def rootName : String := "TYPIKON_CONTENT_ROOT"

def languageName : String := "TYPIKON_LANG"

def levelName : String := "TYPIKON_LOG_LEVEL"

def rootHint : String := "set it to the directory holding xml/Commands/Fasting.xml"

def standardLanguage : String := "en"

-- The version of the library.
def version : String := "0.1.0"

-- A variable that is blank counts as not set.
def nonBlank (lookup : String → Option String) (name : String) : Option String :=
  (lookup name).filter (!Text.isAllBlank ·)

-- The settings by the values of the variables. Only the root has no standard value.
def ofLookup (lookup : String → Option String) : Except SettingsError Settings := do
  let some root := nonBlank lookup rootName | throw (.missing rootName rootHint)
  let tag := (nonBlank lookup languageName).getD standardLanguage
  let language := Text.trimSlashes (Text.trim tag)
  unless Language.isTag language do
    throw (.invalidLanguage language)
  let level ←
    match nonBlank lookup levelName with
    | none => pure Journal.Level.standard
    | some name =>
      match Journal.Level.ofName? name with
      | some level => pure level
      | none       => throw (.invalidLevel name)
  return ⟨Text.trim root, language, level⟩

end Settings

def SettingsError.message : SettingsError → String
  | missing name hint    => s!"environment variable {name} is not set; {hint}"
  | invalidLanguage tag  =>
    s!"invalid {Settings.languageName} `{tag}`; expected segments like `en` or `cu/ru`"
  | invalidLevel name    =>
    s!"invalid {Settings.levelName}: {Journal.Level.unknownName name}"

end Ordo
