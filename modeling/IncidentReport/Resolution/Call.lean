import IncidentReport.Forest.Document
import IncidentReport.Forest.Edit
import IncidentReport.Resolution.Error

/-!
Calls that work on a forest and may fail. A call that fails leaves what it has
done so far, so the forest is part of the outcome of every call.
-/

namespace IncidentReport

/-- A call: from a forest to the answer and the forest that the call leaves. -/
def Call (α : Type) : Type :=
  Forest → Except ResolveError α × Forest

namespace Call

variable {α : Type}

instance : Monad Call where
  pure a f := (.ok a, f)
  bind x next f :=
    match x f with
    | (.ok a, f) => next a f
    | (.error e, f) => (.error e, f)

theorem bind_apply {β : Type} (x : Call α) (next : α → Call β) (f : Forest) :
    (x >>= next) f = match x f with
      | (.ok a, f) => next a f
      | (.error e, f) => (.error e, f) := rfl

/-- Fails and changes nothing. -/
def fail (e : ResolveError) : Call α :=
  fun f => (.error e, f)

def look (view : Forest → α) : Call α :=
  fun f => (.ok (view f), f)

/-- Makes something that is new in the forest. -/
def make (new : Forest → α × Forest) : Call α :=
  fun f => let (a, f) := new f; (.ok a, f)

/-- Edits a node. A refused edit changes nothing. -/
def edit (change : Forest → Except Violation Forest) : Call Unit :=
  fun f =>
    match change f with
    | .ok f => (.ok (), f)
    | .error violation => (.error (.schema violation), f)

/-- Makes a call and goes on without an answer if it fails. -/
def attempt (x : Call α) : Call (Option α) :=
  fun f =>
    match x f with
    | (.ok a, f) => (.ok (some a), f)
    | (.error _, f) => (.ok none, f)

/-- Makes a call for each node of a list, up to the first that fails. -/
def forEach (act : NodeId → Call Unit) : List NodeId → Call Unit
  | [] => pure ()
  | id :: ids => do
    act id
    forEach act ids

end Call

end IncidentReport
