import NamedContent.Proofs.Name.Versions
import NamedContent.Proofs.Node.Changes

/-! # Times are minted and not given back

A node hands out a time by minting only: gets, registrations and publications leave the last minted
time as it was, whatever befalls their attempts. So the last minted time never goes back.

* `Node.LaterMinted`: how the last minted time goes on
* `Node.keeps_laterMinted`, `Node.mint_laterMinted`: calls and minting -/

namespace NamedContent

/-! ## Minting -/

/-- No time is before the one it follows. -/
theorem Timestamp.le_next (t : Timestamp) : t.ticks.toNat ≤ t.next.ticks.toNat := by
  rw [next]
  split
  · exact Nat.le_refl _
  · next hmax =>
    have hlt := t.ticks.toNat_lt
    have hne : t.ticks.toNat ≠ 0xFFFFFFFFFFFFFFFF := fun heq => hmax (UInt64.toNat_inj.1 heq)
    have hone : (1 : UInt64).toNat = 1 := rfl
    rw [UInt64.toNat_add]
    omega

/-- A time minted is what the clock reads, or the next after the last one. -/
theorem Timestamp.mint_cases (reading last : Timestamp) :
    mint reading last = reading ∨ mint reading last = last.next := by
  rw [mint]
  split
  · exact .inr rfl
  · exact .inl rfl

/-- A time minted is not before what the clock reads. -/
theorem Timestamp.reading_le_mint (reading last : Timestamp) :
    reading.ticks.toNat ≤ (mint reading last).ticks.toNat := by
  rw [mint]
  split
  · next h => exact Nat.le_of_lt (UInt64.lt_iff_toNat_lt.1 h)
  · exact Nat.le_refl _

namespace Node

/-- Whether the last minted time on a node is not before the one on another. -/
def LaterMinted (s t : Node) : Prop := s.lastMinted.ticks.toNat ≤ t.lastMinted.ticks.toNat

instance : IsPreorder Node LaterMinted where
  refl _ := Nat.le_refl _
  trans _ _ _ h h' := Nat.le_trans h h'

/-- **What does not mint** does not set the last minted time back. -/
theorem keeps_laterMinted {ε α : Type} {x : Action Node ε α}
    (hx : x.Keeps (Relation.ReflTransGen Works)) : x.Keeps LaterMinted :=
  keeps_of_works (R := LaterMinted)
    (fun _ _ h => Nat.le_of_eq (congrArg (·.ticks.toNat) h.steady.lastMinted.symm)) hx

/-- Minting does not set the last minted time back. -/
theorem mint_laterMinted {ε : Type} : (mint : Action Node ε Timestamp).Keeps LaterMinted :=
  fun s => Nat.le_trans (Timestamp.le_next s.lastMinted)
    (Timestamp.next_le_mint s.clock s.lastMinted)

end Node

end NamedContent
