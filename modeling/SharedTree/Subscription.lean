import SharedTree.Text.Blank

/-!
# Subscribing to the log

A process subscribes to the log of its passes when its environment asks for it, and at most once.
The environment also names the format of the log.
-/

namespace SharedTree

/-- The formats of the log. -/
inductive LogFormat where
  | text | tree | json
deriving DecidableEq, Repr, Inhabited

namespace LogFormat

/-- The name of a format. -/
def name : LogFormat → String
  | .text => "Text"
  | .tree => "Tree"
  | .json => "Json"

/-- The format that a setting asks for. Blanks around it do not count, nor does the case of its
letters, and a setting that is not known asks for text. -/
def ofSetting (setting : String) : LogFormat :=
  let word := (Text.trim setting.toList).map Char.toLower
  if word = "tree".toList then .tree
  else if word = "json".toList then .json
  else .text

end LogFormat

/-- The settings of an environment for the log: the filters of the program itself and of programs in
general, and the name of the format. -/
structure LogSettings where
  ownFilter : Option String := none
  generalFilter : Option String := none
  format : Option String := none
deriving DecidableEq, Repr, Inhabited

namespace LogSettings

/-- The filter that is in force; without one there is no log. An empty filter is one as well. -/
def filter (s : LogSettings) : Option String := s.ownFilter.or s.generalFilter

/-- The format that is in force. -/
def logFormat (s : LogSettings) : LogFormat := .ofSetting (s.format.getD "")

end LogSettings

/-- Whether a process has subscribed to the log, and in which format. -/
abbrev Subscription : Type := Option LogFormat

/-- Subscribes if the environment asks for it and nobody has subscribed yet, and tells whether it
did. -/
def Subscription.request (settings : LogSettings) : StateM Subscription Bool := fun current =>
  match current, settings.filter with
  | none, some _ => (true, some settings.logFormat)
  | _, _ => (false, current)

end SharedTree
