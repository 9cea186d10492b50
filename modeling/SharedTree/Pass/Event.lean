import SharedTree.Pass.Basic

/-!
# Events of passes

Passes report what they do as a sequence of events. Each run is enclosed by an event that opens it
and one that closes it; `Event.entry` is the form in which an event goes into a log.
-/

namespace SharedTree.Pass

/-- How a run begins. -/
inductive Entry where
  /-- At a node whose children are visited. -/
  | descend (kind : Kind)
  /-- At a node that is visited itself, unless it is absent. -/
  | visit (kind : Option Kind)
  /-- At a row of a given length. -/
  | visitRow (length : Nat)
deriving DecidableEq, Repr

/-- What a pass reports. -/
inductive Event where
  | opened (entry : Entry)
  | closed
  /-- The transform answered a node of the given kind and position with none. -/
  | removed (kind : Kind) (pos : UInt32)
  /-- The transform answered a node of the first kind with another one of the second kind. -/
  | replaced (source target : Kind) (pos : UInt32)
  /-- A run has ended: its counters, and whether it succeeded. -/
  | finished (stats : Stats) (ok : Bool)
  /-- A run was given up and its input is returned as it was. -/
  | abandoned (error : PassError)
deriving DecidableEq, Repr

/-! ### Log entries -/

/-- How important an entry of a log is. -/
inductive Level where
  | warn | debug | trace
deriving DecidableEq, Repr

/-- The name of a level. -/
def Level.name : Level → String
  | .warn => "WARN"
  | .debug => "DEBUG"
  | .trace => "TRACE"

/-- The value of a field of an entry. -/
inductive FieldValue where
  | text (s : String)
  | number (n : Nat)
  | bool (b : Bool)
deriving DecidableEq, Repr

/-- An entry of a log: the start of a span of entries, its end, or a message. -/
inductive LogEntry where
  | span (level : Level) (name : String) (fields : List (String × FieldValue))
  | exit
  | message (level : Level) (text : String) (fields : List (String × FieldValue))
deriving DecidableEq, Repr

/-- The text of a kind that may be absent. -/
def kindText : Option Kind → String
  | some k => "Some(" ++ k.name ++ ")"
  | none => "None"

/-- The entry that opens a run. -/
def Entry.entry : Entry → LogEntry
  | .descend k => .span .debug "fallback" [("kind", .text k.name)]
  | .visit k => .span .debug "visit" [("kind", .text (kindText k))]
  | .visitRow n => .span .debug "visit_nodes" [("len", .number n)]

/-- The entry for an event. -/
def Event.entry : Event → LogEntry
  | .opened entry => entry.entry
  | .closed => .exit
  | .removed k pos =>
    .message .trace "transform removed node" [("kind", .text k.name), ("pos", .number pos.toNat)]
  | .replaced source target pos =>
    .message .trace "transform replaced node"
      [("from", .text source.name), ("to", .text target.name), ("pos", .number pos.toNat)]
  | .finished s ok =>
    .message .debug "rewrite finished"
      [("visited", .number s.visited), ("replaced", .number s.replaced),
        ("removed", .number s.removed), ("rebuilt", .number s.rebuilt),
        ("max_depth", .number s.deepest), ("ok", .bool ok)]
  | .abandoned e =>
    .message .warn "rewrite abandoned; returning input unchanged" [("err", .text e.message)]

end SharedTree.Pass
