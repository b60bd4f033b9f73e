import Mathlib.Data.List.Basic

namespace Zkie.PathResolution

/-- The characters of a path or of a part of one. -/
abbrev Text : Type := List Char

def components (path : Text) : List Text := path.splitOn '/'

/-- Where a part leads from a place, which is the parts passed from the root of the file system. -/
def enter (place : List Text) (part : Text) : List Text :=
  if part = [] ∨ part = ['.'] then place
  else if part = ['.', '.'] then place.dropLast
  else place ++ [part]

def walk (place : List Text) (parts : List Text) : List Text := parts.foldl enter place

def IsAbsolute (path : Text) : Prop := path.head? = some '/'

instance (path : Text) : Decidable (IsAbsolute path) := inferInstanceAs (Decidable (_ = _))

/-- The place where a path starts, seen from the directory `cwd`. -/
def origin (cwd : List Text) (path : Text) : List Text := if IsAbsolute path then [] else cwd

/-- The place of a path once its empty parts, `.` and `..` are resolved. -/
def resolve (cwd : List Text) (path : Text) : List Text := walk (origin cwd path) (components path)

/-- A path put behind another; an absolute one replaces it. -/
def join (base path : Text) : Text :=
  if IsAbsolute path then path
  else if base = [] ∨ base.getLast? = some '/' then base ++ path
  else base ++ '/' :: path

/-- All parts but the last. -/
def parents (path : Text) : List Text := (components path).dropLast

/-- The last part. -/
def leaf (path : Text) : Text := (components path).getLast?.getD []

/-- The place of the directory a path lies in. -/
def home (cwd : List Text) (path : Text) : List Text := walk (origin cwd path) (parents path)

/-- A part that names an entry of a directory. -/
def IsEntry (part : Text) : Prop := part ≠ [] ∧ part ≠ ['.'] ∧ part ≠ ['.', '.']

def Inside (place outer : List Text) : Prop := outer <+: place ∧ place ≠ outer

section Walk

variable {cwd place : List Text} {base path suffix : Text}

theorem enter_entry {part : Text} (h : IsEntry part) : enter place part = place ++ [part] := by
  obtain ⟨hempty, hdot, hdots⟩ := h
  rw [enter, if_neg (not_or.mpr ⟨hempty, hdot⟩), if_neg hdots]

theorem walk_append (ps qs : List Text) : walk place (ps ++ qs) = walk (walk place ps) qs := List.foldl_append

theorem walk_nil_cons (ps : List Text) : walk place ([] :: ps) = walk place ps := by
  simp [walk, enter]

theorem components_append (a b : Text) : components (a ++ '/' :: b) = components a ++ components b :=
  List.splitOn_append_cons_self a b

theorem isAbsolute_append (h : base ≠ []) : IsAbsolute (base ++ path) ↔ IsAbsolute base := by
  cases base with
  | nil => exact absurd rfl h
  | cons c cs => simp [IsAbsolute]

theorem origin_append (h : base ≠ []) : origin cwd (base ++ path) = origin cwd base := by
  simp only [origin, isAbsolute_append h]

/-- A joined path is walked from the place of its base, unless it is absolute. -/
theorem resolve_join : resolve cwd (join base path) = resolve (resolve cwd base) path := by
  by_cases habsolute : IsAbsolute path
  · simp [join, resolve, origin, habsolute]
  rw [join, if_neg habsolute]
  have hpath : resolve (resolve cwd base) path = walk (resolve cwd base) (components path) := by
    rw [resolve, origin, if_neg habsolute]
  rw [hpath]
  by_cases hempty : base = []
  · subst hempty
    have hcwd : resolve cwd [] = cwd := by simp [resolve, origin, IsAbsolute, components, walk, enter]
    rw [if_pos (.inl rfl), List.nil_append, hcwd, resolve, origin, if_neg habsolute]
  by_cases hslash : base.getLast? = some '/'
  · rw [if_pos (.inr hslash), resolve, origin_append hempty, resolve]
    obtain ⟨front, rfl⟩ := List.getLast?_eq_some_iff.mp hslash
    rw [List.append_assoc, List.singleton_append, components_append, components_append, walk_append, walk_append]
    simp [components, walk, enter]
  · rw [if_neg (not_or.mpr ⟨hempty, hslash⟩), resolve, origin_append hempty, components_append, walk_append, ← resolve]

/-- What is put behind a path without a separator goes to its last part. -/
theorem exists_components_append (path : Text) :
    ∃ ps last, ∀ suffix, '/' ∉ suffix → components (path ++ suffix) = ps ++ [last ++ suffix] := by
  induction path with
  | nil => exact ⟨[], [], fun suffix hsuffix => List.splitOn_eq_singleton hsuffix⟩
  | cons c cs ih =>
    obtain ⟨ps, last, ih⟩ := ih
    by_cases hc : c = '/'
    · refine ⟨[] :: ps, last, fun suffix hsuffix => ?_⟩
      rw [hc, List.cons_append, ← List.nil_append ('/' :: (cs ++ suffix)), components_append, ih suffix hsuffix]
      simp [components]
    have hcons (suffix : Text) : components (c :: cs ++ suffix) = (components (cs ++ suffix)).modifyHead (c :: ·) := by
      rw [components, List.cons_append, List.splitOn_cons_eq_if_modifyHead, if_neg (by simpa using hc)]
      rfl
    cases ps with
    | nil => exact ⟨[], c :: last, fun suffix hsuffix => by rw [hcons, ih suffix hsuffix]; rfl⟩
    | cons p ps => exact ⟨(c :: p) :: ps, last, fun suffix hsuffix => by rw [hcons, ih suffix hsuffix]; rfl⟩

theorem components_append_suffix (path : Text) (h : '/' ∉ suffix) :
    components (path ++ suffix) = parents path ++ [leaf path ++ suffix] := by
  obtain ⟨ps, last, hparts⟩ := exists_components_append path
  have hnil := hparts [] (by simp)
  rw [List.append_nil, List.append_nil] at hnil
  rw [hparts suffix h, parents, leaf, hnil]
  simp

/-- A path that ends in an entry lies right below its home. -/
theorem resolve_append_suffix (hpath : path ≠ []) (h : '/' ∉ suffix) (hentry : IsEntry (leaf path ++ suffix)) :
    resolve cwd (path ++ suffix) = home cwd path ++ [leaf path ++ suffix] := by
  rw [resolve, components_append_suffix path h, walk_append, origin_append hpath, ← home]
  exact enter_entry hentry

theorem components_of_notMem (h : '/' ∉ path) : components path = [path] := List.splitOn_eq_singleton h

theorem leaf_of_notMem (h : '/' ∉ path) : leaf path = path := by
  rw [leaf, components_of_notMem h]
  rfl

theorem home_of_notMem (h : '/' ∉ path) : home cwd path = cwd := by
  have habsolute : ¬IsAbsolute path := fun hslash => h (List.mem_of_head? hslash)
  rw [home, origin, if_neg habsolute, parents, components_of_notMem h]
  rfl

end Walk

section Places

theorem append_singleton_prefix_append_singleton {α : Type*} {p q : List α} {a b : α} :
    p ++ [a] <+: q ++ [b] ↔ (p = q ∧ a = b) ∨ p ++ [a] <+: q := by
  rw [List.prefix_concat_iff, List.append_singleton_inj]

theorem not_append_prefix {α : Type*} {p : List α} {a : α} : ¬p ++ [a] <+: p := by
  intro h
  have hlength := h.length_le
  rw [List.length_append, List.length_singleton] at hlength
  omega

theorem inside_append_singleton {outer p : List Text} {a : Text} : Inside (p ++ [a]) outer ↔ outer <+: p := by
  constructor
  · rintro ⟨hunder, hne⟩
    exact (List.prefix_concat_iff.mp hunder).resolve_left hne.symm
  · intro hunder
    exact ⟨hunder.trans (List.prefix_append p [a]), fun hsame => not_append_prefix (hsame ▸ hunder)⟩

end Places

end Zkie.PathResolution
