import Zkie.Encoding
import Zkie.Statement

namespace Zkie.DigestBytes

open Encoding
open LittleEndian (toBytes)
open PoseidonBoundary (utf8)
open RunDatabase (Digest32)
open ScalarField (Fr)
open Statement (toRepr)

/-- A length or an index of the program. -/
abbrev Machine (n : ℕ) : Prop := n < 2 ^ 64

theorem prefixFree_u64 : PrefixFree Machine (toBytes 8) := prefixFree_toBytes 8

theorem prefixFree_word32 : PrefixFree (fun _ => True) fun value : UInt32 => toBytes 4 value.toNat := by
  apply Reveals.imp ((prefixFree_toBytes 4).comp UInt32.toNat fun value _ => value.toNat_lt)
  intro a b _ _ h
  exact UInt32.toNat_inj.mp h

theorem prefixFree_word64 : PrefixFree (fun _ => True) fun value : UInt64 => toBytes 8 value.toNat := by
  apply Reveals.imp ((prefixFree_toBytes 8).comp UInt64.toNat fun value _ => value.toNat_lt)
  intro a b _ _ h
  exact UInt64.toNat_inj.mp h

theorem prefixFree_digest : PrefixFree (fun _ => True) fun digest : Digest32 => digest.bytes.toList := by
  apply prefixFree_fixed (n := 32)
  · intro digest _
    exact digest.bytes.length_toList
  · rintro ⟨a⟩ ⟨b⟩ _ _ h
    rw [Digest32.mk.injEq]
    exact Vector.toList_inj.mp h

/-- A text behind its length. -/
theorem prefixFree_text : PrefixFree (fun value : String => Machine value.utf8ByteSize)
    fun value => toBytes 8 value.utf8ByteSize ++ utf8 value := by
  have h := prefixFree_sized (P := fun value : String => Machine value.utf8ByteSize) 8 utf8
    (fun _ _ _ _ heq => Statement.utf8_injective heq) fun value hvalue => by rwa [Statement.utf8_length]
  simp only [Statement.utf8_length] at h
  exact h

theorem prefixFree_toRepr : PrefixFree (fun _ => True) toRepr := by
  apply prefixFree_fixed (n := 32)
  · intro value _
    exact LittleEndian.toBytes_length ..
  · intro a b _ _ h
    have hlt : ∀ value : Fr, value.val < 256 ^ 32 := fun value => value.val_lt.trans (by decide)
    exact ZMod.val_injective _ (LittleEndian.toBytes_inj (hlt a) (hlt b) h)

end Zkie.DigestBytes
