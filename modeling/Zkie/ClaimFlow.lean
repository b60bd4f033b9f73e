import Zkie.LeafClaims
import Zkie.OrderedMap

namespace Zkie.ClaimFlow

open AggregationDigest AggregationTree Checked ClaimMerging LeafClaims
open BuildDag (Edge)
open PoseidonBoundary (Blake3)
open ScalarField (Fr)
open Statement (LeafStatement)
open Std (ExtTreeMap ExtTreeSet TransCmp LawfulEqCmp)

section Collections

variable {κ β : Type} {cmp : κ → κ → Ordering} [TransCmp cmp]

theorem values_eq (m : ExtTreeMap κ β cmp) : m.values = m.toList.map Prod.snd := by
  rcases m with ⟨⟨inner⟩⟩
  induction inner using Quotient.inductionOn with
  | h tree =>
      change tree.inner.values = (Std.DTreeMap.Internal.Impl.Const.toList tree.inner).map Prod.snd
      rw [Std.DTreeMap.Internal.Impl.values_eq_map_snd, Std.DTreeMap.Internal.Impl.Const.toList_eq_toListModel_map, List.map_map]
      rfl

variable [LawfulEqCmp cmp]

theorem mem_values {m : ExtTreeMap κ β cmp} {v : β} : v ∈ m.values ↔ ∃ k : κ, m[k]? = some v := by
  rw [values_eq, List.mem_map]
  constructor
  · rintro ⟨⟨k, v⟩, hmem, rfl⟩
    exact ⟨k, ExtTreeMap.mem_toList_iff_getElem?_eq_some.mp hmem⟩
  · rintro ⟨k, hk⟩
    exact ⟨(k, v), ExtTreeMap.mem_toList_iff_getElem?_eq_some.mpr hk, rfl⟩

theorem values_insert_perm {m : ExtTreeMap κ β cmp} {k : κ} {v : β} (h : k ∉ m) : (m.insert k v).values.Perm (v :: m.values) := by
  rw [values_eq, values_eq]
  exact (OrderedMap.toList_insert_perm h).map Prod.snd

/-- Elements that all were new. -/
theorem insertNew_ok {error : κ → AggregationError} [DecidableEq κ] {xs : List κ} {set set' : ExtTreeSet κ cmp}
    (h : xs.foldlM (fun set x => do
      refuseIf (x ∈ set) (error x)
      return set.insert x) set = .ok set') : (∀ x, x ∈ set' ↔ x ∈ set ∨ x ∈ xs) ∧ ∀ x ∈ xs, x ∉ set := by
  induction xs generalizing set with
  | nil =>
      cases h
      simp
  | cons x xs ih =>
      rw [List.foldlM_cons] at h
      obtain ⟨between, hstep, hrest⟩ := bind_eq_ok.mp h
      obtain ⟨_, hnew, hstep⟩ := bind_eq_ok.mp hstep
      cases hstep
      obtain ⟨hmem, hdisjoint⟩ := ih hrest
      have hinsert : ∀ y, y ∈ set.insert x ↔ y ∈ set ∨ y = x := by
        intro y
        rw [ExtTreeSet.mem_insert, LawfulEqCmp.compare_eq_iff_eq, eq_comm, or_comm]
      refine ⟨fun y => ?_, ?_⟩
      · rw [hmem, hinsert, List.mem_cons, or_assoc]
      · refine List.forall_mem_cons.mpr ⟨refuse_ok.mp hnew, fun y hy hold => ?_⟩
        exact hdisjoint y hy ((hinsert y).mpr (.inl hold))

end Collections

section Flow

variable {statements : UInt64 → Option LeafStatement} {index : DagIndex} {covered covered' : ExtTreeSet UInt64}
  {frontier frontier' : Frontier} {closed closed' : ExtTreeSet String} {edge : Edge} {id : String}

/-- What the leaf of a shard claims for an edge. -/
def claimed (statements : UInt64 → Option LeafStatement) (out : Bool) (shard : UInt64) (id : String) : Option Fr :=
  (statements shard).bind fun statement => commitmentOf (if out then statement.outputClaims else statement.inputClaims) id

/-- The sides of an edge as far as its ends are covered. -/
def sides (statements : UInt64 → Option LeafStatement) (covered : ExtTreeSet UInt64) (id : String) (edge : Edge) : EdgeFrontier :=
  ⟨if UInt64.ofNat edge.producer ∈ covered then claimed statements true (UInt64.ofNat edge.producer) id else none,
    if UInt64.ofNat edge.consumer ∈ covered then claimed statements false (UInt64.ofNat edge.consumer) id else none⟩

def Meets (covered : ExtTreeSet UInt64) (edge : Edge) : Prop :=
  UInt64.ofNat edge.producer ∈ covered ∨ UInt64.ofNat edge.consumer ∈ covered

def Inside (covered : ExtTreeSet UInt64) (edge : Edge) : Prop :=
  UInt64.ofNat edge.producer ∈ covered ∧ UInt64.ofNat edge.consumer ∈ covered

instance (covered : ExtTreeSet UInt64) (edge : Edge) : Decidable (Meets covered edge) := inferInstanceAs (Decidable (_ ∨ _))

/-- The open edges of the covered shards, with the sides that are covered. -/
def opened (statements : UInt64 → Option LeafStatement) (index : DagIndex) (covered : ExtTreeSet UInt64) (closed : ExtTreeSet String)
    (id : String) : Option EdgeFrontier :=
  index.edgesById[id]?.bind fun edge => if id ∉ closed ∧ Meets covered edge then some (sides statements covered id edge) else none

variable (statements index) in
/-- The frontier is made of the open edges; the closed ones lie inside, and their two leaves agree. -/
structure Flow (covered : ExtTreeSet UInt64) (frontier : Frontier) (closed : ExtTreeSet String) : Prop where
  frontier : ∀ id : String, frontier[id]? = opened statements index covered closed id
  closed : ∀ id ∈ closed, ∃ edge, index.edgesById[id]? = some edge ∧ Inside covered edge ∧
    ∃ commitment, sides statements covered id edge = ⟨some commitment, some commitment⟩

/-- Later sides go over those that are there. -/
def join (target incoming : EdgeFrontier) : EdgeFrontier :=
  ⟨incoming.producer.or target.producer, incoming.consumer.or target.consumer⟩

theorem joinSide_ok {target incoming side : Option Fr} (h : joinSide id target incoming = .ok side) : incoming.or target = side := by
  cases incoming with
  | none =>
      cases h
      rfl
  | some value =>
      obtain ⟨_, -, h⟩ := bind_eq_ok.mp h
      cases h
      rfl

theorem mergeFrontier_ok {incoming : String × EdgeFrontier} (h : mergeFrontier frontier incoming = .ok frontier') :
    frontier' = frontier.insert incoming.1 (join (entryOf frontier incoming.1) incoming.2) := by
  obtain ⟨producer, hproducer, h⟩ := bind_eq_ok.mp h
  obtain ⟨consumer, hconsumer, h⟩ := bind_eq_ok.mp h
  cases h
  rw [← joinSide_ok hproducer, ← joinSide_ok hconsumer]
  rfl

theorem mergeFrontiers_ok {incoming : List (String × EdgeFrontier)} (hkeys : (incoming.map Prod.fst).Nodup)
    (h : incoming.foldlM mergeFrontier frontier = .ok frontier') :
    (∀ entry ∈ incoming, frontier'[entry.1]? = some (join (entryOf frontier entry.1) entry.2)) ∧
      ∀ id ∉ incoming.map Prod.fst, frontier'[id]? = frontier[id]? := by
  induction incoming generalizing frontier with
  | nil =>
      cases h
      simp
  | cons entry incoming ih =>
      rw [List.foldlM_cons] at h
      obtain ⟨_, hstep, hrest⟩ := bind_eq_ok.mp h
      rw [mergeFrontier_ok hstep] at hrest
      rw [List.map_cons, List.nodup_cons] at hkeys
      obtain ⟨hin, hout⟩ := ih hkeys.2 hrest
      refine ⟨List.forall_mem_cons.mpr ⟨?_, fun other hother => ?_⟩, fun id hid => ?_⟩
      · rw [hout entry.1 hkeys.1, ExtTreeMap.getElem?_insert_self]
      · have hne : entry.1 ≠ other.1 := fun heq => hkeys.1 (heq ▸ List.mem_map_of_mem hother)
        rw [hin other hother, entryOf_insert_ne _ hne]
      · rw [List.map_cons, List.mem_cons, not_or] at hid
        rw [hout id hid.2, getElem?_insert_ne _ (Ne.symm hid.1)]

theorem entryOf_eq {entry : EdgeFrontier} (h : frontier[id]? = some entry) : entryOf frontier id = entry := by
  rw [entryOf, ExtTreeMap.getD_eq_getD_getElem?, h]
  rfl

theorem sides_outside (h : ¬Meets covered edge) : sides statements covered id edge = ⟨none, none⟩ := by
  rw [Meets, not_or] at h
  rw [sides, if_neg h.1, if_neg h.2]

theorem Flow.entryOf (h : Flow statements index covered frontier closed) (hedge : index.edgesById[id]? = some edge)
    (hopen : id ∉ closed) : LeafClaims.entryOf frontier id = sides statements covered id edge := by
  have hget := h.frontier id
  rw [opened, hedge, Option.bind_some] at hget
  by_cases hmeets : Meets covered edge
  · rw [if_pos ⟨hopen, hmeets⟩] at hget
    exact entryOf_eq hget
  · rw [if_neg fun hboth => hmeets hboth.2] at hget
    rw [LeafClaims.entryOf, ExtTreeMap.getD_eq_getD_getElem?, hget, sides_outside hmeets]
    rfl

/-- The sides over two disjoint sets of shards. -/
theorem sides_union {all : ExtTreeSet UInt64} (hall : ∀ s, s ∈ all ↔ s ∈ covered ∨ s ∈ covered') (hdisjoint : ∀ s ∈ covered', s ∉ covered) :
    sides statements all id edge = join (sides statements covered id edge) (sides statements covered' id edge) := by
  have hside : ∀ (s : UInt64) (value : Option Fr), (if s ∈ all then value else none) =
      (if s ∈ covered' then value else none).or (if s ∈ covered then value else none) := by
    intro s value
    by_cases hs' : s ∈ covered'
    · rw [if_pos ((hall s).mpr (.inr hs')), if_pos hs', if_neg (hdisjoint s hs'), Option.or_none]
    · by_cases hs : s ∈ covered
      · rw [if_pos ((hall s).mpr (.inl hs)), if_neg hs', if_pos hs, Option.none_or]
      · rw [if_neg fun h => ((hall s).mp h).elim hs hs', if_neg hs', if_neg hs, Option.none_or]
  rw [sides, sides, sides, join, hside, hside]

/-- Two flows over disjoint sets of shards, side by side. -/
theorem Flow.merge {all : ExtTreeSet UInt64} {allClosed : ExtTreeSet String} {merged : Frontier}
    (h : Flow statements index covered frontier closed) (h' : Flow statements index covered' frontier' closed')
    (hall : ∀ s, s ∈ all ↔ s ∈ covered ∨ s ∈ covered') (hdisjoint : ∀ s ∈ covered', s ∉ covered)
    (hclosed : ∀ id, id ∈ allClosed ↔ id ∈ closed ∨ id ∈ closed')
    (hmerge : frontier'.toList.foldlM mergeFrontier frontier = .ok merged) : Flow statements index all merged allClosed := by
  have hkeys : (frontier'.toList.map Prod.fst).Nodup := by
    rw [ExtTreeMap.map_fst_toList_eq_keys]
    exact ExtTreeMap.nodup_keys
  obtain ⟨hin, hout⟩ := mergeFrontiers_ok hkeys hmerge
  have hkept : ∀ id : String, frontier'[id]? = none → merged[id]? = frontier[id]? := by
    intro id hnone
    apply hout
    rw [ExtTreeMap.map_fst_toList_eq_keys, ExtTreeMap.mem_keys, ExtTreeMap.mem_iff_isSome_getElem?, hnone]
    simp
  have hjoined : ∀ (id : String) entry, frontier'[id]? = some entry → merged[id]? = some (join (LeafClaims.entryOf frontier id) entry) :=
    fun id entry hget => hin (id, entry) (ExtTreeMap.mem_toList_iff_getElem?_eq_some.mpr hget)
  have hmeets : ∀ edge, Meets all edge ↔ Meets covered edge ∨ Meets covered' edge := by
    intro edge
    simp only [Meets, hall]
    tauto
  have houtside : ∀ edge, Inside covered edge → ¬Meets covered' edge := by
    rintro edge ⟨hproducer, hconsumer⟩ (hmeet | hmeet)
    · exact hdisjoint _ hmeet hproducer
    · exact hdisjoint _ hmeet hconsumer
  have houtside' : ∀ edge, Inside covered' edge → ¬Meets covered edge := by
    rintro edge ⟨hproducer, hconsumer⟩ (hmeet | hmeet)
    · exact hdisjoint _ hproducer hmeet
    · exact hdisjoint _ hconsumer hmeet
  refine ⟨fun id => ?_, fun id hid => ?_⟩
  · have hget := h.frontier id
    have hget' := h'.frontier id
    rw [opened] at hget hget' ⊢
    cases hedge : index.edgesById[id]? with
    | none =>
        rw [hedge] at hget hget'
        rw [hkept id hget', hget]
        rfl
    | some edge =>
        rw [hedge, Option.bind_some] at hget hget'
        rw [Option.bind_some]
        by_cases hc : id ∈ closed
        · obtain ⟨edge', hedge', hinside, -⟩ := h.closed id hc
          obtain rfl : edge = edge' := Option.some.inj (hedge.symm.trans hedge')
          rw [if_neg fun hboth => houtside edge hinside hboth.2] at hget'
          rw [hkept id hget', hget, if_neg fun hboth => hboth.1 hc, if_neg fun hboth => hboth.1 ((hclosed id).mpr (.inl hc))]
        · by_cases hc' : id ∈ closed'
          · obtain ⟨edge', hedge', hinside, -⟩ := h'.closed id hc'
            obtain rfl : edge = edge' := Option.some.inj (hedge.symm.trans hedge')
            rw [if_neg fun hboth => hboth.1 hc'] at hget'
            rw [hkept id hget', hget, if_neg fun hboth => houtside' edge hinside hboth.2,
              if_neg fun hboth => hboth.1 ((hclosed id).mpr (.inr hc'))]
          · have hopen : id ∉ allClosed := fun hmem => ((hclosed id).mp hmem).elim hc hc'
            by_cases hm' : Meets covered' edge
            · rw [if_pos ⟨hc', hm'⟩] at hget'
              rw [hjoined id _ hget', h.entryOf hedge hc, if_pos ⟨hopen, (hmeets edge).mpr (.inr hm')⟩, sides_union hall hdisjoint]
            · rw [if_neg fun hboth => hm' hboth.2] at hget'
              rw [hkept id hget', hget, sides_union hall hdisjoint, sides_outside hm']
              by_cases hm : Meets covered edge
              · rw [if_pos ⟨hc, hm⟩, if_pos ⟨hopen, (hmeets edge).mpr (.inl hm)⟩]
                rfl
              · rw [if_neg fun hboth => hm hboth.2, if_neg fun hboth => ((hmeets edge).mp hboth.2).elim hm hm']
  · rcases (hclosed id).mp hid with hid | hid
    · obtain ⟨edge, hedge, hinside, commitment, hsides⟩ := h.closed id hid
      refine ⟨edge, hedge, ⟨(hall _).mpr (.inl hinside.1), (hall _).mpr (.inl hinside.2)⟩, commitment, ?_⟩
      rw [sides_union hall hdisjoint, hsides, sides_outside (houtside edge hinside)]
      rfl
    · obtain ⟨edge, hedge, hinside, commitment, hsides⟩ := h'.closed id hid
      refine ⟨edge, hedge, ⟨(hall _).mpr (.inr hinside.1), (hall _).mpr (.inr hinside.2)⟩, commitment, ?_⟩
      rw [sides_union hall hdisjoint, hsides]
      rfl

/-- Closing one edge keeps the flow, and an edge inside is closed afterwards. -/
theorem Flow.close {node : AggregationChildId} {state state' : Frontier × ExtTreeSet String}
    (h : Flow statements index covered state.1 state.2) (hstep : closeCovered node index covered state id = .ok state') :
    Flow statements index covered state'.1 state'.2 ∧ (∀ other ∈ state.2, other ∈ state'.2) ∧
      ∀ edge, index.edgesById[id]? = some edge → Inside covered edge → id ∈ state'.2 := by
  unfold closeCovered at hstep
  split at hstep
  · cases hstep
  next edge hedge =>
  have hsame : ∀ edge', index.edgesById[id]? = some edge' → edge' = edge := fun edge' hedge' =>
    Option.some.inj (hedge'.symm.trans hedge)
  split at hstep
  case isFalse houtside =>
    cases hstep
    exact ⟨h, fun _ hmem => hmem, fun edge' hedge' hinside => absurd (hsame edge' hedge' ▸ hinside) houtside⟩
  next hinside =>
  split at hstep
  · next hmem =>
    obtain ⟨_, -, hstep⟩ := bind_eq_ok.mp hstep
    cases hstep
    exact ⟨h, fun _ hold => hold, fun _ _ _ => hmem⟩
  next hopen =>
  split at hstep
  · cases hstep
  next endpoints hendpoints =>
  obtain ⟨_, hpresent, hstep⟩ := bind_eq_ok.mp hstep
  obtain ⟨_, hequal, hstep⟩ := bind_eq_ok.mp hstep
  cases hstep
  have hproducer : endpoints.producer ≠ none := (not_or.mp (refuse_ok.mp hpresent)).1
  have hagree : endpoints.producer = endpoints.consumer := not_not.mp (refuse_ok.mp hequal)
  have hinsert : ∀ other, other ∈ state.2.insert id ↔ other = id ∨ other ∈ state.2 := by
    intro other
    rw [ExtTreeSet.mem_insert, LawfulEqCmp.compare_eq_iff_eq, eq_comm]
  have hsides : sides statements covered id edge = endpoints := by
    rw [← h.entryOf hedge hopen]
    exact entryOf_eq hendpoints
  refine ⟨⟨fun other => ?_, fun other hother => ?_⟩, fun other hold => (hinsert other).mpr (.inr hold),
    fun _ _ _ => (hinsert id).mpr (.inl rfl)⟩
  · rw [ExtTreeMap.getElem?_erase, opened]
    by_cases heq : id = other
    · subst heq
      rw [if_pos Std.ReflCmp.compare_self, hedge, Option.bind_some, if_neg fun hnot => hnot.1 ((hinsert id).mpr (.inl rfl))]
    · have hmem : other ∈ state.2.insert id ↔ other ∈ state.2 := by
        rw [hinsert, or_iff_right fun h => heq h.symm]
      rw [if_neg fun hcmp => heq (compare_eq_iff_eq.mp hcmp), h.frontier other, opened]
      simp only [hmem]
  · rcases (hinsert other).mp hother with rfl | hold
    · obtain ⟨commitment, hcommitment⟩ := Option.ne_none_iff_exists'.mp hproducer
      have hendpoints : endpoints = ⟨some commitment, some commitment⟩ := by
        rw [← hcommitment]
        nth_rewrite 2 [hagree]
        rfl
      exact ⟨edge, hedge, hinside, commitment, hsides.trans hendpoints⟩
    · exact h.closed other hold

/-- All edges inside are closed once every edge of the frontier has been looked at. -/
theorem Flow.closeAll {node : AggregationChildId} {state' : Frontier × ExtTreeSet String}
    (h : Flow statements index covered frontier closed)
    (hok : frontier.keys.foldlM (closeCovered node index covered) (frontier, closed) = .ok state') :
    Flow statements index covered state'.1 state'.2 ∧
      ∀ (id : String) edge, index.edgesById[id]? = some edge → Inside covered edge → id ∈ state'.2 := by
  have hfold : Flow statements index covered state'.1 state'.2 ∧ (∀ other ∈ closed, other ∈ state'.2) ∧
      ∀ id ∈ frontier.keys, ∀ edge, index.edgesById[id]? = some edge → Inside covered edge → id ∈ state'.2 := by
    refine foldlM_builds (I := fun done state => Flow statements index covered state.1 state.2 ∧ (∀ other ∈ closed, other ∈ state.2) ∧
      ∀ id ∈ done, ∀ edge, index.edgesById[id]? = some edge → Inside covered edge → id ∈ state.2) ?_ []
      ⟨h, fun _ hmem => hmem, by simp⟩ hok
    rintro done state id state' ⟨hflow, hkept, hdone⟩ hstep
    obtain ⟨hflow', hgrows, hnew⟩ := hflow.close hstep
    refine ⟨hflow', fun other hother => hgrows other (hkept other hother), fun other hother edge hedge hinside => ?_⟩
    rcases List.mem_append.mp hother with hother | hother
    · exact hgrows other (hdone other hother edge hedge hinside)
    · obtain rfl := List.mem_singleton.mp hother
      exact hnew edge hedge hinside
  obtain ⟨hflow, hkept, hkeys⟩ := hfold
  refine ⟨hflow, fun id edge hedge hinside => ?_⟩
  by_cases hmem : id ∈ closed
  · exact hkept id hmem
  · have hget := h.frontier id
    rw [opened, hedge, Option.bind_some, if_pos ⟨hmem, Or.inl hinside.1⟩] at hget
    apply hkeys id _ edge hedge hinside
    rw [ExtTreeMap.mem_keys, ExtTreeMap.mem_iff_isSome_getElem?, hget]
    rfl

end Flow

section Public

variable {node : AggregationChildId}

/-- The bindings of a kind, each under the register that it is about. -/
def Keyed (S : PublicBoundaryBinding → Prop) (target : ExtTreeMap String PublicBoundaryBinding) : Prop :=
  ∀ (key : String) binding, target[key]? = some binding ↔ binding.descriptor.registerId = key ∧ S binding

theorem Keyed.merge {S : PublicBoundaryBinding → Prop} {target target' : ExtTreeMap String PublicBoundaryBinding}
    {bindings : List PublicBoundaryBinding} (h : Keyed S target)
    (hok : bindings.foldlM (mergePublicInput node) target = .ok target') : Keyed (fun b => S b ∨ b ∈ bindings) target' := by
  induction bindings generalizing S target with
  | nil =>
      cases hok
      intro key binding
      rw [h]
      simp
  | cons new bindings ih =>
      rw [List.foldlM_cons] at hok
      obtain ⟨between, hstep, hrest⟩ := bind_eq_ok.mp hok
      have hbetween : Keyed (fun b => S b ∨ b = new) between := by
        unfold mergePublicInput at hstep
        dsimp only at hstep
        split at hstep
        · next existing hexisting =>
          obtain ⟨_, hsame, hstep⟩ := bind_eq_ok.mp hstep
          cases hstep
          obtain rfl := not_not.mp (refuse_ok.mp hsame)
          have hin := ((h _ _).mp hexisting).2
          intro key binding
          rw [h key binding]
          constructor
          · rintro ⟨hkey, hS⟩
            exact ⟨hkey, .inl hS⟩
          · rintro ⟨hkey, hS | rfl⟩
            · exact ⟨hkey, hS⟩
            · exact ⟨hkey, hin⟩
        · next hnone =>
          cases hstep
          intro key binding
          rw [ExtTreeMap.getElem?_insert]
          by_cases hkey : new.descriptor.registerId = key
          · subst hkey
            rw [if_pos Std.ReflCmp.compare_self, Option.some_inj]
            constructor
            · rintro rfl
              exact ⟨rfl, .inr rfl⟩
            · rintro ⟨hkey, hS | rfl⟩
              · have hget := (h _ _).mpr ⟨hkey, hS⟩
                rw [hnone] at hget
                cases hget
              · rfl
          · rw [if_neg fun hcmp => hkey (compare_eq_iff_eq.mp hcmp), h key binding]
            constructor
            · rintro ⟨heq, hS⟩
              exact ⟨heq, .inl hS⟩
            · rintro ⟨heq, hS | rfl⟩
              · exact ⟨heq, hS⟩
              · exact absurd heq hkey
      intro key binding
      simp only [ih hbetween hrest key binding, List.mem_cons, or_assoc]

/-- The outputs that are gathered, which have no name in common. -/
structure Gathered (outputs : List PublicBoundaryBinding) (target : ExtTreeMap String PublicBoundaryBinding × ExtTreeSet String) :
    Prop where
  values : target.1.values.Perm outputs
  keyed : ∀ (key : String) b, target.1[key]? = some b ↔ b.descriptor.graphOutputNames.head? = some key ∧ b ∈ outputs
  names : ∀ name, name ∈ target.2 ↔ ∃ b ∈ outputs, name ∈ b.descriptor.graphOutputNames
  disjoint : outputs.Pairwise fun b b' => List.Disjoint b.descriptor.graphOutputNames b'.descriptor.graphOutputNames

theorem mem_claimNames {names : List String} {set : ExtTreeSet String} {name : String} :
    name ∈ names.foldl (fun claimed name => claimed.insert name) set ↔ name ∈ set ∨ name ∈ names := by
  induction names generalizing set with
  | nil => simp
  | cons first names ih =>
      rw [List.foldl_cons, ih, ExtTreeSet.mem_insert, LawfulEqCmp.compare_eq_iff_eq, List.mem_cons, eq_comm, or_assoc, or_left_comm]

theorem Gathered.step {outputs : List PublicBoundaryBinding} {binding : PublicBoundaryBinding}
    {target target' : ExtTreeMap String PublicBoundaryBinding × ExtTreeSet String} (h : Gathered outputs target)
    (hok : mergePublicOutput node target binding = .ok target') : Gathered (outputs ++ [binding]) target' := by
  unfold mergePublicOutput at hok
  dsimp only at hok
  split at hok
  · cases hok
  · cases hok
  · next key hnone hhead =>
    obtain ⟨_, hkey, hok⟩ := bind_eq_ok.mp hok
    cases hok
    have hkey := refuse_ok.mp hkey
    have hfresh : ∀ name ∈ binding.descriptor.graphOutputNames, name ∉ target.2 := by simpa using hnone
    refine ⟨?_, fun other b => ?_, fun name => ?_, ?_⟩
    · refine (values_insert_perm hkey).trans ?_
      exact (List.Perm.cons binding h.values).trans (List.perm_append_singleton _ _).symm
    · rw [ExtTreeMap.getElem?_insert, List.mem_append, List.mem_singleton]
      by_cases hsame : key = other
      · subst hsame
        rw [if_pos Std.ReflCmp.compare_self, Option.some_inj]
        constructor
        · rintro rfl
          exact ⟨hhead, .inr rfl⟩
        · rintro ⟨hb, hold | rfl⟩
          · have hget := (h.keyed key b).mpr ⟨hb, hold⟩
            exact absurd (ExtTreeMap.mem_iff_isSome_getElem?.mpr (by rw [hget]; rfl)) hkey
          · rfl
      · rw [if_neg fun hcmp => hsame (compare_eq_iff_eq.mp hcmp), h.keyed]
        constructor
        · rintro ⟨hb, hold⟩
          exact ⟨hb, .inl hold⟩
        · rintro ⟨hb, hold | rfl⟩
          · exact ⟨hb, hold⟩
          · exact absurd (Option.some.inj (hhead.symm.trans hb)) hsame
    · rw [mem_claimNames, h.names]
      simp only [List.mem_append, List.mem_singleton, or_and_right, exists_or, exists_eq_left]
    · rw [List.pairwise_append]
      refine ⟨h.disjoint, List.pairwise_singleton _ _, fun b hb b' hb' name hname hname' => ?_⟩
      obtain rfl := List.mem_singleton.mp hb'
      exact hfresh name hname' ((h.names name).mpr ⟨b, hb, hname⟩)

theorem Gathered.merge {outputs bindings : List PublicBoundaryBinding}
    {target target' : ExtTreeMap String PublicBoundaryBinding × ExtTreeSet String} (h : Gathered outputs target)
    (hok : bindings.foldlM (mergePublicOutput node) target = .ok target') : Gathered (outputs ++ bindings) target' :=
  foldlM_builds (I := fun outputs target => Gathered outputs target) (fun _ _ _ _ hdone hstep => hdone.step hstep) outputs h hok

theorem Gathered.perm {outputs outputs' : List PublicBoundaryBinding}
    {target : ExtTreeMap String PublicBoundaryBinding × ExtTreeSet String} (h : Gathered outputs target) (hperm : outputs.Perm outputs') :
    Gathered outputs' target where
  values := h.values.trans hperm
  keyed key b := by rw [h.keyed, hperm.mem_iff]
  names name := by simp only [h.names, hperm.mem_iff]
  disjoint := (hperm.pairwise_iff fun hdisjoint => hdisjoint.symm).mp h.disjoint

theorem Keyed.unique {S S' : PublicBoundaryBinding → Prop} {target target' : ExtTreeMap String PublicBoundaryBinding} (h : Keyed S target)
    (h' : Keyed S' target') (hsame : ∀ b, S b ↔ S' b) : target = target' := by
  ext key b
  rw [h key b, h' key b, hsame]

theorem Gathered.unique {outputs outputs' : List PublicBoundaryBinding}
    {target target' : ExtTreeMap String PublicBoundaryBinding × ExtTreeSet String} (h : Gathered outputs target)
    (h' : Gathered outputs' target') (hperm : outputs.Perm outputs') : target.1 = target'.1 := by
  ext key b
  rw [h.keyed key b, h'.keyed key b, hperm.mem_iff]

end Public

section Sound

variable {blake3 : Blake3} {statements : UInt64 → Option LeafStatement} {index : DagIndex} {L : UInt64 → LeafStatement → Prop}
  {edges : List Edge} {n : ℕ} {claim child : VerifiedClaim} {merged merged' : Merged}

/-- The public outputs of the leaf of a shard. -/
def outputsOf (statements : UInt64 → Option LeafStatement) (shard : UInt64) : List PublicBoundaryBinding :=
  ((statements shard).map fun statement => publicBindings true statement.outputClaims).getD []

/-- A covered leaf has this public input. -/
def IsInput (statements : UInt64 → Option LeafStatement) (covered : ExtTreeSet UInt64) (binding : PublicBoundaryBinding) : Prop :=
  ∃ shard ∈ covered, ∃ statement, statements shard = some statement ∧ binding ∈ publicBindings false statement.inputClaims

variable (statements index L) in
/-- A claim says of its leaves what their statements say. -/
structure Sound (claim : VerifiedClaim) : Prop where
  nonempty : 1 ≤ claim.coveredShards.toList.length
  known : ∀ s ∈ claim.coveredShards, ∃ statement, statements s = some statement ∧ L s statement
  leaves : ∀ s, s ∈ claim.leaves ↔ s ∈ claim.coveredShards
  flow : Flow statements index claim.coveredShards claim.frontier claim.closedEdges
  settled : ∀ (id : String) edge, index.edgesById[id]? = some edge → Inside claim.coveredShards edge → id ∈ claim.closedEdges
  inputs : ∀ binding, binding ∈ claim.publicInputs ↔ IsInput statements claim.coveredShards binding
  outputs : claim.publicOutputs.Perm (claim.coveredShards.toList.flatMap (outputsOf statements))

variable (statements index L) in
/-- The same of the children that are merged so far. -/
structure SoundMerged (merged : Merged) : Prop where
  known : ∀ s ∈ merged.covered, ∃ statement, statements s = some statement ∧ L s statement
  leaves : ∀ s, s ∈ merged.leaves ↔ s ∈ merged.covered
  flow : Flow statements index merged.covered merged.frontier merged.closed
  inputs : Keyed (IsInput statements merged.covered) merged.publicInputs
  outputs : Gathered (merged.covered.toList.flatMap (outputsOf statements)) (merged.publicOutputs, merged.publicOutputNames)

theorem soundMerged_empty : SoundMerged statements index L ⟨∅, ∅, ∅, ∅, ∅, ∅, ∅⟩ where
  known s hs := absurd hs (by simp)
  leaves s := by simp
  flow := by
    refine ⟨fun id => ?_, fun id hid => absurd hid (by simp)⟩
    rw [opened, ExtTreeMap.getElem?_empty]
    cases index.edgesById[id]? with
    | none => rfl
    | some edge =>
        rw [Option.bind_some, if_neg]
        rintro ⟨-, hmeets | hmeets⟩ <;> simp at hmeets
  inputs key binding := by simp [IsInput]
  outputs := by
    refine ⟨?_, ?_, ?_, ?_⟩
    · exact .refl _
    · intro key b
      rw [ExtTreeMap.getElem?_empty]
      constructor
      · rintro ⟨⟩
      · rintro ⟨-, hb⟩
        exact absurd hb List.not_mem_nil
    · intro name
      constructor
      · intro hname
        exact absurd hname (by simp)
      · rintro ⟨b, hb, -⟩
        exact absurd hb List.not_mem_nil
    · exact .nil

theorem toList_union {all covered covered' : ExtTreeSet UInt64} (hall : ∀ s, s ∈ all ↔ s ∈ covered ∨ s ∈ covered')
    (hdisjoint : ∀ s ∈ covered', s ∉ covered) : all.toList.Perm (covered.toList ++ covered'.toList) := by
  apply (List.perm_ext_iff_of_nodup (OrderedMap.nodup_setToList all) _).mpr
  · intro s
    simp [hall]
  · apply (OrderedMap.nodup_setToList covered).append (OrderedMap.nodup_setToList covered')
    intro s hs hs'
    exact hdisjoint s (ExtTreeSet.mem_toList.mp hs') (ExtTreeSet.mem_toList.mp hs)

theorem mem_mergeLeaves {entries : List (UInt64 × LeafBinding)} {leaves : ExtTreeMap UInt64 LeafBinding} {s : UInt64} :
    s ∈ entries.foldl (fun leaves entry => leaves.insert entry.1 entry.2) leaves ↔ s ∈ leaves ∨ s ∈ entries.map Prod.fst := by
  induction entries generalizing leaves with
  | nil => simp
  | cons entry entries ih =>
      rw [List.foldl_cons, ih, ExtTreeMap.mem_insert, LawfulEqCmp.compare_eq_iff_eq, List.map_cons, List.mem_cons, eq_comm, or_assoc,
        or_left_comm]

/-- A further child brings its own shards. -/
theorem SoundMerged.add {node : AggregationChildId} (h : SoundMerged statements index L merged) (hchild : Sound statements index L child)
    (hok : mergeChild node merged child = .ok merged') :
    SoundMerged statements index L merged' ∧ merged.covered.toList.length + 1 ≤ merged'.covered.toList.length := by
  obtain ⟨covered, hcovered, hok⟩ := bind_eq_ok.mp hok
  obtain ⟨closed, hclosed, hok⟩ := bind_eq_ok.mp hok
  obtain ⟨frontier, hfrontier, hok⟩ := bind_eq_ok.mp hok
  obtain ⟨publicInputs, hinputs, hok⟩ := bind_eq_ok.mp hok
  obtain ⟨⟨publicOutputs, publicOutputNames⟩, houtputs, hok⟩ := bind_eq_ok.mp hok
  dsimp only at hok
  split at hok
  · cases hok
  obtain ⟨_, -, hok⟩ := bind_eq_ok.mp hok
  cases hok
  obtain ⟨hcoveredMem, hdisjoint⟩ := insertNew_ok hcovered
  obtain ⟨hclosedMem, -⟩ := insertNew_ok hclosed
  simp only [ExtTreeSet.mem_toList] at hcoveredMem hclosedMem hdisjoint
  have hisInput : ∀ b, IsInput statements covered b ↔ IsInput statements merged.covered b ∨ b ∈ child.publicInputs := by
    intro b
    rw [hchild.inputs]
    simp only [IsInput, hcoveredMem, or_and_right, exists_or]
  refine ⟨⟨fun s hs => ?_, fun s => ?_, h.flow.merge hchild.flow hcoveredMem hdisjoint hclosedMem hfrontier, fun key b => ?_, ?_⟩, ?_⟩
  · rcases (hcoveredMem s).mp hs with hs | hs
    · exact h.known s hs
    · exact hchild.known s hs
  · rw [mem_mergeLeaves, h.leaves, hcoveredMem, ExtTreeMap.map_fst_toList_eq_keys, ExtTreeMap.mem_keys, hchild.leaves]
  · rw [h.inputs.merge hinputs key b, hisInput]
  · refine (h.outputs.merge houtputs).perm ?_
    have hperm := (toList_union hcoveredMem hdisjoint).flatMap_right (outputsOf statements)
    rw [List.flatMap_append] at hperm
    exact (List.Perm.append_left _ hchild.outputs).trans hperm.symm
  · rw [(toList_union hcoveredMem hdisjoint).length_eq, List.length_append]
    exact Nat.add_le_add_left hchild.nonempty _

variable (statements) in
/-- The public boundaries of a merged claim are in the order of their registers and names, none of which it has twice. -/
structure Canonical (claim : VerifiedClaim) : Prop where
  several : 2 ≤ claim.coveredShards.toList.length
  inputs : ∃ target, Keyed (IsInput statements claim.coveredShards) target ∧ claim.publicInputs = target.values
  outputs : ∃ target, Gathered (claim.coveredShards.toList.flatMap (outputsOf statements)) target ∧ claim.publicOutputs = target.1.values

theorem merge_sound {node : AggregationNode} {children : List VerifiedClaim} (hchildren : ∀ child ∈ children, Sound statements index L child)
    (hok : mergeVerifiedClaimsIndexed blake3 index node children = .ok claim) :
    Sound statements index L claim ∧ Canonical statements claim := by
  obtain ⟨_, hids, hok⟩ := bind_eq_ok.mp hok
  cases children with
  | nil => cases hok
  | cons first rest =>
      obtain ⟨_, -, hok⟩ := bind_eq_ok.mp hok
      obtain ⟨merged, hmerged, hok⟩ := bind_eq_ok.mp hok
      obtain ⟨⟨frontier, closed⟩, hclosed, hok⟩ := bind_eq_ok.mp hok
      cases hok
      have hfold := foldlM_builds
        (I := fun done merged => (∀ child ∈ done, Sound statements index L child) →
          SoundMerged statements index L merged ∧ done.length ≤ merged.covered.toList.length)
        (fun done merged child merged' hdone hstep hall => by
          rw [List.forall_mem_append, List.forall_mem_singleton] at hall
          obtain ⟨hmerged, hlength⟩ := hdone hall.1
          obtain ⟨hmerged', hmore⟩ := hmerged.add hall.2 hstep
          rw [List.length_append, List.length_singleton]
          exact ⟨hmerged', by omega⟩) [] (fun _ => ⟨soundMerged_empty, Nat.zero_le _⟩) hmerged
      obtain ⟨hsound, hlength⟩ := hfold hchildren
      have hseveral : 2 ≤ merged.covered.toList.length := by
        have harity := node.arity.1
        rw [← not_not.mp (refuse_ok.mp hids), List.length_map] at harity
        exact Nat.le_trans harity hlength
      obtain ⟨hflow, hsettled⟩ := hsound.flow.closeAll hclosed
      refine ⟨⟨Nat.le_of_succ_le hseveral, hsound.known, hsound.leaves, hflow, hsettled, fun b => ?_, hsound.outputs.values⟩, ⟨hseveral, ⟨_, hsound.inputs, rfl⟩, _, hsound.outputs, rfl⟩⟩
      · change b ∈ merged.publicInputs.values ↔ IsInput statements merged.covered b
        rw [mem_values]
        constructor
        · rintro ⟨key, hkey⟩
          exact ((hsound.inputs key b).mp hkey).2
        · intro hinput
          exact ⟨_, (hsound.inputs _ b).mpr ⟨rfl, hinput⟩⟩

end Sound

end Zkie.ClaimFlow
