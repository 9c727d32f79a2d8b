import NamedContent.Proofs.Action.Keeping
import NamedContent.Proofs.Object.FailedSave

/-! # Operations that fail leave the object as it was

An operation may have done a lot before it fails: namespaces are added, times are minted, and some
objects of a publication are out. The object itself changes last, by a step that cannot fail, so
that an operation that fails leaves it as it was, whatever befell which of its calls.

* `ObjectCall`: the operations that fetch or publish
* `ObjectCall.error_leaves_object`: the main theorem -/

namespace NamedContent

variable {α : Type}

namespace VersionedObject

/-! ## Steps that change nothing -/

section Keeps

variable {R : VersionedObject α × Node → VersionedObject α × Node → Prop} [IsPreorder _ R]

/-- Looking at the object keeps everything. -/
theorem self_keeps {ε : Type} : (self : Op α ε (VersionedObject α)).Keeps R :=
  fun p => Std.Refl.refl p

/-- Asking for the name of the object keeps everything. -/
theorem requireName_keeps : (requireName : Op α ObjectError Name).Keeps R := by
  refine self_keeps.bind fun o => ?_
  cases o.name with
  | some name => exact .pure name
  | none => exact .fail ObjectError.unnamed

/-- Adding a namespace keeps what the node keeps. -/
theorem addNamespace_keeps {root : Name}
    (hnode : ∀ id, (onNode (Node.addNamespace id root) : Op α FlowError Unit).Keeps R) :
    (addNamespace root : Op α ObjectError Unit).Keeps R :=
  self_keeps.bind fun o => (hnode o.controller).mapError ObjectError.flow

end Keeps

/-! ## Steps that do not touch the object -/

/-- Whether the object is the same in two states. -/
def SameObject (p q : VersionedObject α × Node) : Prop := q.1 = p.1

instance : IsPreorder (VersionedObject α × Node) SameObject where
  refl _ := rfl
  trans _ _ _ h h' := h'.trans h

/-- What is done on the node does not touch the object. -/
theorem onNode_sameObject {ε β : Type} (x : Action Node ε β) :
    (onNode x : Op α ε β).Keeps SameObject := fun _ => rfl

/-- The object changes by a step that cannot fail. -/
theorem change_failsKeeping (f : VersionedObject α → VersionedObject α) :
    (change f : Op α ObjectError Unit).FailsKeeping SameObject :=
  .of_ok fun _ => ⟨(), rfl⟩

/-! ## Fetching -/

/-- **Taking over what was read**: the content is decoded and its namespace is added before the
object changes. -/
theorem absorb_failsKeeping (codec : PayloadCodec α) (read : Except ReadError StreamContent) :
    (absorb codec read).FailsKeeping SameObject := by
  cases read with
  | ok stream =>
    refine Action.FailsKeeping.bind (.ofExcept _) fun data => ?_
    exact .bind (addNamespace_keeps fun _ => onNode_sameObject _) fun _ => change_failsKeeping _
  | error e =>
    cases e with
    | gone name => exact change_failsKeeping _
    | _ => exact (Action.Keeps.fail _).failsKeeping

/-- An update to a name that fails leaves the object as it was. -/
theorem updateTo_failsKeeping (codec : PayloadCodec α) (name : Name) :
    (updateTo codec name).FailsKeeping SameObject :=
  .bind self_keeps fun o =>
    .bind (onNode_sameObject (o.client.reader.read name)).attempt fun read =>
      absorb_failsKeeping codec read

/-- An update from a first segment that fails leaves the object as it was. -/
theorem updateFrom_failsKeeping (codec : PayloadCodec α) (first : ContentObject) :
    (updateFrom codec first).FailsKeeping SameObject :=
  .bind self_keeps fun o =>
    .bind (onNode_sameObject (o.client.reader.readFrom first)).attempt fun read =>
      absorb_failsKeeping codec read

/-- An update to the newest version that fails leaves the object as it was. -/
theorem update_failsKeeping (codec : PayloadCodec α) :
    (update codec).FailsKeeping SameObject :=
  .bind requireName_keeps fun name => updateTo_failsKeeping codec name.versionRoot

end VersionedObject

/-! ## All operations -/

/-- A call that fetches into an object or publishes it. -/
inductive ObjectCall where
  /-- The latest version of the object's name is fetched. -/
  | update
  /-- The stream with a name is fetched. -/
  | updateTo (name : Name)
  /-- The stream that an object belongs to is fetched. -/
  | updateFrom (first : ContentObject)
  /-- A value or a tombstone is published. -/
  | publish (call : SaveCall)

namespace ObjectCall

/-- The call is made. -/
def run (codec : PayloadCodec α) : ObjectCall → VersionedObject.Op α ObjectError Unit
  | .update => VersionedObject.update codec
  | .updateTo name => VersionedObject.updateTo codec name
  | .updateFrom first => VersionedObject.updateFrom codec first
  | .publish call => call.run codec

/-- **A call that fails leaves the object as it was**, from every state of the object and of the
node, whatever befalls its attempts. -/
theorem error_leaves_object {codec : PayloadCodec α} {call : ObjectCall} {o : VersionedObject α}
    {s : Node} {e : ObjectError} (h : (call.run codec (o, s)).1 = .error e) :
    (call.run codec (o, s)).2.1 = o := by
  cases call with
  | update => exact VersionedObject.update_failsKeeping codec (o, s) e h
  | updateTo name => exact VersionedObject.updateTo_failsKeeping codec name (o, s) e h
  | updateFrom first => exact VersionedObject.updateFrom_failsKeeping codec first (o, s) e h
  | publish call => exact (SaveCall.run_error h).1

/-- A save of two segments fails at the second, which a reader has asked for. Both are kept by
then, beside those of the first save. -/
theorem error_leaves_object_half_saved :
    let codec : PayloadCodec Unit := ⟨fun _ => .ok [7, 8], fun _ => .ok ()⟩
    let client : Client := ⟨default, .echo, .echo, { blockSize := 1 }, 3⟩
    let root : Name := ⟨[⟨[1]⟩]⟩
    let awaited := (root.withVersion ⟨2⟩).segment 1
    let w := Sharing.run codec [.join client .empty, .save (), .get 0 (.exact awaited) (some 1)]
      (Sharing.start 0 ⟨0⟩ root client .empty)
    let o := w.writer.set ()
    let s : Node := { w.node with schedule := [{ failure := some .closed }] }
    let call : ObjectCall := .publish .save
    (call.run codec (o, s)).1 = .error (.flow (.face (.transport .closed)))
      ∧ (∀ c ∈ (call.run codec (o, s)).2.2.controller? o.controller,
          c.flow.buffer.length = 4)
      ∧ (call.run codec (o, s)).2.1 = o := by
  intro codec client root awaited w o s call
  have hleft : (call.run codec (o, s)).1 = .error (.flow (.face (.transport .closed))) := by
    decide +kernel
  exact ⟨hleft, by decide +kernel, error_leaves_object hleft⟩

end ObjectCall

end NamedContent
