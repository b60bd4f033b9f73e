import Zkie.Checked
import Mathlib.Data.List.Dedup
import Mathlib.Data.List.Forall2

namespace Zkie.Interning

open Checked

variable {ε κ V α β : Type} [DecidableEq κ]

/-- The keys met so far with their values, in the order in which they were met first. -/
abbrev Table (κ V : Type) : Type := List (κ × V)

def position (table : Table κ V) (k : κ) : Option ℕ := (table.map Prod.fst).idxOf? k

/-- The place of a key in the table, which is made when the key is new. -/
def intern (make : κ → Except ε V) (table : Table κ V) (k : κ) : Except ε (Table κ V × ℕ) :=
  match position table k with
  | some i => .ok (table, i)
  | none => do
      let v ← make k
      return (table ++ [(k, v)], table.length)

/-- A pass over a list with a state. -/
def thread {S : Type} (f : S → α → Except ε (S × β)) : S → List α → Except ε (S × List β)
  | s, [] => .ok (s, [])
  | s, x :: xs => do
      let (s, y) ← f s x
      let (s, ys) ← thread f s xs
      return (s, y :: ys)

/-- The table has the value that was made for each of its keys, and no key twice. -/
structure Interned (make : κ → Except ε V) (table : Table κ V) : Prop where
  made : ∀ entry ∈ table, make entry.1 = .ok entry.2
  keys : (table.map Prod.fst).Nodup

variable {make : κ → Except ε V} {table table' : Table κ V} {k : κ} {i : ℕ}

omit [DecidableEq κ] in
theorem Interned.empty : Interned make ([] : Table κ V) := ⟨by simp, List.nodup_nil⟩

theorem position_some (h : position table k = some i) : ∃ v, table[i]? = some (k, v) := by
  obtain ⟨hi, hget, -⟩ := List.idxOf?_eq_some_iff.mp h
  rw [List.length_map] at hi
  rw [List.getElem_map] at hget
  exact ⟨table[i].2, by rw [List.getElem?_eq_getElem hi, ← hget]⟩

theorem position_none (h : position table k = none) : k ∉ table.map Prod.fst := List.idxOf?_eq_none_iff.mp h

/-- A key keeps its place while the table grows. -/
theorem intern_ok (hinterned : Interned make table) (h : intern make table k = .ok (table', i)) :
    Interned make table' ∧ table <+: table' ∧ (∃ v, table'[i]? = some (k, v)) ∧
      ∀ k', k' ∈ table'.map Prod.fst ↔ k' ∈ table.map Prod.fst ∨ k' = k := by
  unfold intern at h
  split at h
  · next j hposition =>
      cases h
      obtain ⟨v, hv⟩ := position_some hposition
      refine ⟨hinterned, List.prefix_rfl, ⟨v, hv⟩, fun k' => ⟨Or.inl, ?_⟩⟩
      rintro (h | rfl)
      · exact h
      · exact List.mem_map_of_mem (List.mem_of_getElem? hv)
  · next hposition =>
      obtain ⟨v, hv, h⟩ := bind_eq_ok.mp h
      cases h
      refine ⟨⟨?_, ?_⟩, List.prefix_append _ _, ⟨v, by simp⟩, by simp⟩
      · simpa only [List.forall_mem_append, List.forall_mem_singleton] using ⟨hinterned.made, hv⟩
      · rw [List.map_append, List.map_singleton]
        exact hinterned.keys.append (List.nodup_singleton k) (by simpa using position_none hposition)

/-- Where every new key can be made, every key can be interned. -/
theorem intern_total (h : ∃ v, make k = .ok v) : ∃ table' i, intern make table k = .ok (table', i) := by
  unfold intern
  split
  · exact ⟨_, _, rfl⟩
  · obtain ⟨v, hv⟩ := h
    exact ⟨table ++ [(k, v)], table.length, by rw [hv]; rfl⟩

section Thread

variable {S : Type} {f : S → α → Except ε (S × β)} {xs : List α}

/-- If each step keeps an invariant, lets the state grow and gives a result that stays right while the state grows, so does
the whole pass. -/
theorem thread_ok {I : S → Prop} {L : S → S → Prop} {R : S → α → β → Prop} (hrefl : ∀ s, L s s)
    (htrans : ∀ a b c, L a b → L b c → L a c) (hmono : ∀ s s' x y, L s s' → R s x y → R s' x y)
    (hstep : ∀ s x s' y, x ∈ xs → I s → f s x = .ok (s', y) → I s' ∧ L s s' ∧ R s' x y) {s s' : S} {ys : List β} (hs : I s)
    (h : thread f s xs = .ok (s', ys)) : I s' ∧ L s s' ∧ List.Forall₂ (R s') xs ys := by
  induction xs generalizing s ys with
  | nil =>
      cases h
      exact ⟨hs, hrefl _, .nil⟩
  | cons x xs ih =>
      obtain ⟨⟨s₁, y⟩, hx, h⟩ := bind_eq_ok.mp h
      obtain ⟨⟨s₂, ys⟩, hxs, h⟩ := bind_eq_ok.mp h
      cases h
      obtain ⟨hs₁, hle₁, hy⟩ := hstep s x s₁ y (.head _) hs hx
      obtain ⟨hs₂, hle₂, hys⟩ := ih (fun s x s' y hmem => hstep s x s' y (.tail _ hmem)) hs₁ hxs
      exact ⟨hs₂, htrans _ _ _ hle₁ hle₂, .cons (hmono _ _ _ _ hle₂ hy) hys⟩

/-- An invariant of the elements so far, and a result that stays right when more elements follow. -/
theorem thread_builds {I : List α → S → Prop} {R : List α → α → β → Prop}
    (hmono : ∀ done more x y, R done x y → R (done ++ more) x y)
    (hstep : ∀ done s x s' y, I done s → f s x = .ok (s', y) → I (done ++ [x]) s' ∧ R (done ++ [x]) x y)
    (done : List α) {s s' : S} {ys : List β} (hs : I done s) (h : thread f s xs = .ok (s', ys)) :
    I (done ++ xs) s' ∧ List.Forall₂ (R (done ++ xs)) xs ys := by
  induction xs generalizing done s ys with
  | nil =>
      cases h
      rw [List.append_nil]
      exact ⟨hs, .nil⟩
  | cons x xs ih =>
      obtain ⟨⟨s₁, y⟩, hx, h⟩ := bind_eq_ok.mp h
      obtain ⟨⟨s₂, ys⟩, hxs, h⟩ := bind_eq_ok.mp h
      cases h
      obtain ⟨hs₁, hy⟩ := hstep done s x s₁ y hs hx
      obtain ⟨hs₂, hys⟩ := ih (done ++ [x]) hs₁ hxs
      rw [List.append_assoc, List.singleton_append] at hs₂ hys
      refine ⟨hs₂, .cons ?_ hys⟩
      rw [← List.singleton_append, ← List.append_assoc]
      exact hmono _ _ _ _ hy

/-- A pass over a whole list succeeds if each step does after the elements before it. -/
theorem thread_succeeds {I : List α → S → Prop} {all : List α}
    (hstep : ∀ done s x, done ++ [x] <+: all → I done s → ∃ s' y, f s x = .ok (s', y) ∧ I (done ++ [x]) s')
    (done : List α) (hall : done ++ xs = all) {s : S} (hs : I done s) : ∃ s' ys, thread f s xs = .ok (s', ys) ∧ I all s' := by
  induction xs generalizing done s with
  | nil =>
      rw [List.append_nil] at hall
      exact ⟨s, [], rfl, hall ▸ hs⟩
  | cons x xs ih =>
      have hsplit : (done ++ [x]) ++ xs = all := by rw [List.append_assoc, List.singleton_append, hall]
      obtain ⟨s₁, y, hx, hs₁⟩ := hstep done s x ⟨xs, hsplit⟩ hs
      obtain ⟨s₂, ys, hxs, hs₂⟩ := ih (done ++ [x]) hsplit hs₁
      refine ⟨s₂, y :: ys, ?_, hs₂⟩
      exact bind_eq_ok.mpr ⟨(s₁, y), hx, bind_eq_ok.mpr ⟨(s₂, ys), hxs, rfl⟩⟩

/-- A pass succeeds if each step does wherever the invariant holds. -/
theorem thread_total {I : S → Prop} (hstep : ∀ s, ∀ x ∈ xs, I s → ∃ s' y, f s x = .ok (s', y) ∧ I s') {s : S} (hs : I s) :
    ∃ s' ys, thread f s xs = .ok (s', ys) ∧ I s' := by
  apply thread_succeeds (I := fun _ => I) _ [] rfl hs
  intro done s x hinitial
  exact hstep s x (hinitial.subset (by simp))

end Thread

section FirstUses

variable {keys more : List κ}

/-- Each key once, in the order in which the keys come first. -/
def firstUses (keys : List κ) : List κ := keys.reverse.dedup.reverse

@[simp] theorem firstUses_nil : firstUses ([] : List κ) = [] := rfl

@[simp] theorem mem_firstUses : k ∈ firstUses keys ↔ k ∈ keys := by simp [firstUses]

theorem nodup_firstUses (keys : List κ) : (firstUses keys).Nodup := List.nodup_reverse.mpr (List.nodup_dedup _)

theorem firstUses_length (keys : List κ) : (firstUses keys).length ≤ keys.length := by
  simpa [firstUses] using (List.dedup_sublist keys.reverse).length_le

theorem firstUses_concat (keys : List κ) (k : κ) :
    firstUses (keys ++ [k]) = if k ∈ keys then firstUses keys else firstUses keys ++ [k] := by
  rw [firstUses, List.reverse_append, List.reverse_singleton, List.singleton_append]
  split
  · next h =>
    rw [List.dedup_cons_of_mem (List.mem_reverse.mpr h)]
    rfl
  · next h =>
    rw [List.dedup_cons_of_notMem (mt List.mem_reverse.mp h), List.reverse_cons]
    rfl

theorem firstUses_grows (keys more : List κ) : firstUses keys <+: firstUses (keys ++ more) := by
  induction more generalizing keys with
  | nil => simp
  | cons k more ih =>
      have hstep : firstUses keys <+: firstUses (keys ++ [k]) := by
        rw [firstUses_concat]
        split
        · exact List.prefix_rfl
        · exact List.prefix_append _ _
      have hrest := ih (keys ++ [k])
      rw [List.append_assoc, List.singleton_append] at hrest
      exact hstep.trans hrest

/-- A key keeps its place when more keys follow. -/
theorem idxOf?_mono {xs ys : List κ} (hinitial : xs <+: ys) (h : xs.idxOf? k = some i) : ys.idxOf? k = some i := by
  obtain ⟨rest, rfl⟩ := hinitial
  obtain ⟨hlt, hget, hbefore⟩ := List.idxOf?_eq_some_iff.mp h
  refine List.idxOf?_eq_some_iff.mpr ⟨by rw [List.length_append]; omega, ?_, fun j hj => ?_⟩
  · rw [List.getElem_append_left hlt, hget]
  · rw [List.getElem_append_left (Nat.lt_trans hj hlt)]
    exact hbefore j hj

/-- A table that was filled by interning some keys one after the other, where a value may depend on its place. -/
structure Filled (make : ℕ → κ → Except ε V) (keys : List κ) (table : Table κ V) : Prop where
  keys : table.map Prod.fst = firstUses keys
  made : ∀ i k v, table[i]? = some (k, v) → make i k = .ok v

variable {make : ℕ → κ → Except ε V}

theorem Filled.empty (make : ℕ → κ → Except ε V) : Filled make [] [] := ⟨rfl, by simp⟩

theorem Filled.length (h : Filled make keys table) : table.length = (firstUses keys).length := by
  rw [← h.keys, List.length_map]

theorem Filled.intern (h : Filled make keys table) (hintern : intern (make table.length) table k = .ok (table', i)) :
    Filled make (keys ++ [k]) table' ∧ (firstUses (keys ++ [k])).idxOf? k = some i := by
  unfold Interning.intern position at hintern
  rw [h.keys] at hintern
  split at hintern
  · next j hposition =>
    cases hintern
    have hmem : k ∈ keys := mem_firstUses.mp (List.isSome_idxOf?.mp (Option.isSome_of_mem hposition))
    rw [firstUses_concat, if_pos hmem]
    refine ⟨⟨?_, h.made⟩, hposition⟩
    rw [h.keys, firstUses_concat, if_pos hmem]
  · next hposition =>
    obtain ⟨v, hv, hintern⟩ := bind_eq_ok.mp hintern
    cases hintern
    have hnew : k ∉ firstUses keys := List.idxOf?_eq_none_iff.mp hposition
    have hkeys : firstUses (keys ++ [k]) = firstUses keys ++ [k] := by
      rw [firstUses_concat, if_neg (mt mem_firstUses.mpr hnew)]
    refine ⟨⟨?_, fun j k' v' hj => ?_⟩, ?_⟩
    · rw [List.map_append, h.keys, hkeys]
      rfl
    · rw [List.getElem?_append] at hj
      split at hj
      · exact h.made j k' v' hj
      · next hge =>
        obtain ⟨hone, hentry⟩ := List.getElem?_eq_some_iff.mp hj
        rw [List.length_singleton] at hone
        obtain rfl : j = table.length := by omega
        rw [List.getElem_singleton] at hentry
        cases hentry
        exact hv
    · rw [hkeys, List.idxOf?_eq_some_iff]
      refine ⟨by rw [List.length_append, ← h.length]; simp, ?_, fun j hj => ?_⟩
      · rw [List.getElem_append_right (Nat.le_of_eq h.length.symm)]
        simp
      · rw [List.getElem_append_left (h.length ▸ hj)]
        intro heq
        exact hnew (heq ▸ List.getElem_mem _)

/-- The next key can be interned where its value can be made, in case it is new. -/
theorem Filled.intern_total (h : Filled make keys table)
    (hmake : ∀ i, (firstUses (keys ++ [k]))[i]? = some k → ∃ v, make i k = .ok v) :
    ∃ table' i, Interning.intern (make table.length) table k = .ok (table', i) := by
  unfold Interning.intern position
  rw [h.keys]
  split
  · exact ⟨_, _, rfl⟩
  · next hposition =>
    have hnew : k ∉ keys := mt mem_firstUses.mpr (List.idxOf?_eq_none_iff.mp hposition)
    obtain ⟨v, hv⟩ := hmake table.length (by rw [firstUses_concat, if_neg hnew, h.length, List.getElem?_concat_length])
    exact ⟨table ++ [(k, v)], table.length, by rw [hv]; rfl⟩

/-- The values of a filled table, under the keys in their order. -/
theorem Filled.forall₂ {R : κ → V → Prop} (h : Filled make keys table) (hR : ∀ i k v, make i k = .ok v → R k v) :
    List.Forall₂ R (firstUses keys) (table.map Prod.snd) := by
  rw [← h.keys, List.forall₂_map_left_iff, List.forall₂_map_right_iff, List.forall₂_same]
  rintro ⟨k, v⟩ hentry
  obtain ⟨i, hi⟩ := List.mem_iff_getElem?.mp hentry
  exact hR i k v (h.made i k v hi)

/-- A key has the value that was made for its place. -/
theorem Filled.lookup (h : Filled make keys table) (hk : (firstUses keys).idxOf? k = some i) :
    ∃ v, (table.map Prod.snd)[i]? = some v ∧ make i k = .ok v := by
  obtain ⟨hlt, hget, -⟩ := List.idxOf?_eq_some_iff.mp hk
  have hentry : (table.map Prod.fst)[i]? = some k := by rw [h.keys, List.getElem?_eq_getElem hlt, hget]
  rw [List.getElem?_map, Option.map_eq_some_iff] at hentry
  obtain ⟨⟨k', v⟩, hentry, rfl⟩ := hentry
  exact ⟨v, by rw [List.getElem?_map, hentry]; rfl, h.made i k' v hentry⟩

end FirstUses

end Zkie.Interning
