import Stepwise.Interrupt
import Stepwise.Random
import Stepwise.Scope
import Stepwise.Sink

/-!
# `Stepwise.State`: what a run shares between its frames

The heap, the scopes, the source of identity numbers, the random generator, the interrupt under way,
the sink, the line of the node started last and the number of `try` bodies that are running.
-/

set_option autoImplicit false

namespace Stepwise

/-- What a run shares between its frames. -/
structure State where
  heap : Heap
  scopes : Scopes
  /-- The next identity number. -/
  nextId : Nat
  random : Random
  /-- The interrupt that waits for the top frame. -/
  pending : Option Interrupt
  sink : Sink
  /-- The line of the node started last. -/
  line : Nat
  /-- The number of `try` frames whose body is running. -/
  guards : Nat
deriving Inhabited

namespace State

/-- Makes a list. -/
def makeList (st : State) (items : Array Value) : Value × State :=
  let (r, heap) := st.heap.newList st.nextId items
  (.list r, { st with heap := heap, nextId := st.nextId + 1 })

/-- Makes an object. -/
def makeObject (st : State) (fields : Fields) : ObjectRef × State :=
  let (r, heap) := st.heap.newObject st.nextId fields
  (r, { st with heap := heap, nextId := st.nextId + 1 })

/-- Makes a reference to a slot. -/
def makeReference (st : State) (container : Container) (key : Key) : Value × State :=
  (.reference ⟨st.nextId, container, key⟩, { st with nextId := st.nextId + 1 })

/-- Makes a function. -/
def makeFunction (st : State) (params : List String) (body : Block) : Value × State :=
  (.function ⟨st.nextId, params, body⟩, { st with nextId := st.nextId + 1 })

/-- Makes a reference to what a path addresses. -/
def resolve (st : State) (global : Bool) (path : List String) : Except Fault Value × State :=
  match st.scopes.resolve st.heap global path with
  | .error f => (.error f, st)
  | .ok (object, key) =>
    let (v, st) := st.makeReference (.object object) (.name key)
    (.ok v, st)

/-- Makes a scope and puts it on top. The scope takes its identity even if the limit is reached. -/
def pushScope (st : State) : Except Fault ObjectRef × State :=
  let (scope, st) := st.makeObject .empty
  match st.scopes.push scope with
  | .error f => (.error f, st)
  | .ok scopes => (.ok scope, { st with scopes := scopes })

/-- Removes the top scope. -/
def popScope (st : State) : State :=
  { st with scopes := st.scopes.pop }

/-- Sets an interrupt off at the current line; there must be none under way. -/
def raise (st : State) (exit : Exit) : Except Fault Unit × State :=
  match st.pending with
  | some i =>
    let text := "'" ++ exit.signal.name ++ "' raised while '" ++ i.signal.name ++ "' is pending"
    (.error (.internal text), st)
  | none => (.ok (), { st with pending := some ⟨exit, st.line⟩ })

/-- Makes the object by which a script sees a catchable fault. -/
def exceptionPayload (st : State) (cause : Catchable) : Value × State :=
  let fields := (Fields.empty.insert "kind" (.str cause.tag)).insert "message" (.str cause.text)
  let (r, st) := st.makeObject fields
  (.object r, st)

end State

end Stepwise
