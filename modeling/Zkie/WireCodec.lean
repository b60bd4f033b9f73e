import Zkie.Encoding

namespace Zkie.WireCodec

open Encoding (Reveals reveals_const)

variable {ε α β : Type}

/-- An encoder carries the bytes written so far, a decoder the bytes left. -/
abbrev Wire (ε : Type) : Type → Type := StateT (List UInt8) (Except ε)

section Primitives

def emit (bytes : List UInt8) : Wire ε Unit := fun out => .ok ((), out ++ bytes)

def take (e : ε) (n : ℕ) : Wire ε (List UInt8) := fun bytes =>
  if n ≤ bytes.length then .ok (bytes.take n, bytes.drop n) else .error e

def ensure (c : Prop) [Decidable c] (e : ε) : Wire ε Unit := fun bytes =>
  if c then .ok ((), bytes) else .error e

def lift (r : Except ε α) : Wire ε α := fun bytes => r.map fun a => (a, bytes)

/-- The result of a decoder that has to use up its input. -/
def finish (e : ε) (r : Except ε α) : Wire ε α := fun bytes =>
  if bytes = [] then r.map fun a => (a, []) else .error e

def putU32 (n : UInt32) : Wire ε Unit := emit (LittleEndian.toBytes 4 n.toNat)

def u32 (e : ε) : Wire ε UInt32 := do
  let bytes ← take e 4
  return UInt32.ofNat (LittleEndian.ofBytes bytes)

def putU64 (n : UInt64) : Wire ε Unit := emit (LittleEndian.toBytes 8 n.toNat)

def u64 (e : ε) : Wire ε UInt64 := do
  let bytes ← take e 8
  return UInt64.ofNat (LittleEndian.ofBytes bytes)

def putEach (put : α → Wire ε Unit) : List α → Wire ε Unit
  | [] => pure ()
  | x :: xs => do
    put x
    putEach put xs

def getEach (get : Wire ε α) : ℕ → Wire ε (List α)
  | 0 => pure []
  | n + 1 => do
    let x ← get
    let xs ← getEach get n
    return x :: xs

end Primitives

section Bind

theorem bind_ok {x : Wire ε α} {f : α → Wire ε β} {s t : List UInt8} {b : β} :
    (x >>= f) s = .ok (b, t) ↔ ∃ a u, x s = .ok (a, u) ∧ f a u = .ok (b, t) := by
  change (Except.bind (x s) fun p => f p.1 p.2) = _ ↔ _
  cases h : x s with
  | error e => simp [Except.bind]
  | ok p =>
      constructor
      · intro hf
        exact ⟨p.1, p.2, rfl, hf⟩
      · rintro ⟨a, u, hp, hf⟩
        cases hp
        exact hf

theorem ensure_ok {c : Prop} [Decidable c] {e : ε} {s t : List UInt8} :
    ensure c e s = .ok ((), t) ↔ c ∧ s = t := by
  by_cases h : c <;> simp [ensure, h]

theorem take_ok {e : ε} {n : ℕ} {s t bytes : List UInt8} :
    take e n s = .ok (bytes, t) ↔ bytes.length = n ∧ s = bytes ++ t := by
  unfold take
  constructor
  · intro h
    split at h
    · cases h
      rename_i hn
      exact ⟨List.length_take_of_le hn, (List.take_append_drop n s).symm⟩
    · cases h
  · rintro ⟨rfl, rfl⟩
    simp

end Bind

section Exact

/-- The decoder reads back exactly what the encoder writes for the values of `P`, in front of any
rest that `R` admits. -/
structure Exact (R : List UInt8 → Prop) (P : α → Prop) (put : α → Wire ε Unit) (get : Wire ε α) : Prop where
  reads : ∀ {a out out'}, P a → put a out = .ok ((), out') →
    ∃ bytes, out' = out ++ bytes ∧ ∀ rest, R rest → get (bytes ++ rest) = .ok (a, rest)
  spells : ∀ {a bytes rest}, get bytes = .ok (a, rest) →
    P a ∧ R rest ∧ ∃ used, bytes = used ++ rest ∧ ∀ out, put a out = .ok ((), out ++ used)

/-- Any bytes may follow. -/
def AnyRest : List UInt8 → Prop := fun _ => True

/-- Nothing may follow. -/
def NoRest : List UInt8 → Prop := fun rest => rest = []

variable {R : List UInt8 → Prop} {P Q : α → Prop} {put : α → Wire ε Unit} {get : Wire ε α}

theorem Exact.iff (h : Exact R P put get) (hiff : ∀ a, P a ↔ Q a) : Exact R Q put get :=
  ⟨fun hq => h.reads ((hiff _).mpr hq), fun hget => by
    obtain ⟨hp, hrest⟩ := h.spells hget
    exact ⟨(hiff _).mp hp, hrest⟩⟩

/-- A component is written and read first, then the rest with the component known. -/
theorem Exact.bind {PX : α → Prop} {putX : α → Wire ε Unit} {getX : Wire ε α} {f : β → α} {P : β → Prop}
    {putRest : β → Wire ε Unit} {k : α → Wire ε β} (hx : Exact AnyRest PX putX getX)
    (hk : ∀ x, PX x → Exact R (fun b => P b ∧ f b = x) putRest (k x)) (hf : ∀ b, P b → PX (f b)) :
    Exact R P (fun b => putX (f b) >>= fun _ => putRest b) (getX >>= k) := by
  constructor
  · intro b out out' hb hput
    obtain ⟨_, mid, hhead, htail⟩ := bind_ok.mp hput
    obtain ⟨p, rfl, hread⟩ := hx.reads (hf b hb) hhead
    obtain ⟨q, rfl, hreadRest⟩ := (hk (f b) (hf b hb)).reads ⟨hb, rfl⟩ htail
    refine ⟨p ++ q, List.append_assoc .., ?_⟩
    intro rest hrest
    rw [List.append_assoc]
    apply bind_ok.mpr
    exact ⟨_, _, hread _ trivial, hreadRest rest hrest⟩
  · intro b bytes rest hget
    obtain ⟨x, mid, hgetX, hgetRest⟩ := bind_ok.mp hget
    obtain ⟨hpx, -, p, rfl, hputX⟩ := hx.spells hgetX
    obtain ⟨⟨hb, rfl⟩, hrest, q, rfl, hputRest⟩ := (hk x hpx).spells hgetRest
    refine ⟨hb, hrest, p ++ q, (List.append_assoc ..).symm, ?_⟩
    intro out
    apply bind_ok.mpr
    exact ⟨(), _, hputX out, by rw [hputRest, List.append_assoc]⟩

/-- A component that is written and read for every value. -/
theorem Exact.field {putX : α → Wire ε Unit} {getX : Wire ε α} {f : β → α} {P : β → Prop} {putRest : β → Wire ε Unit}
    {k : α → Wire ε β} (hx : Exact AnyRest (fun _ => True) putX getX)
    (hk : ∀ x, Exact R (fun b => P b ∧ f b = x) putRest (k x)) :
    Exact R P (fun b => putX (f b) >>= fun _ => putRest b) (getX >>= k) :=
  hx.bind (fun x _ => hk x) fun _ _ => trivial

/-- The last component is followed by what decides about the value. -/
theorem Exact.last {PX : α → Prop} {putX : α → Wire ε Unit} {getX : Wire ε α} {f : β → α} {P : β → Prop}
    {k : α → Wire ε β} (hx : Exact AnyRest PX putX getX)
    (hk : ∀ x, PX x → Exact R (fun b => P b ∧ f b = x) (fun _ => pure ()) (k x)) (hf : ∀ b, P b → PX (f b)) :
    Exact R P (fun b => putX (f b)) (getX >>= k) := by
  have h := hx.bind hk hf
  simp only [bind_pure_unit] at h
  exact h

theorem Exact.guard {c : Prop} [Decidable c] {e : ε} (hc : ∀ a, P a → c) (h : c → Exact R P put get) :
    Exact R P put (ensure c e >>= fun _ => get) := by
  constructor
  · intro a out out' ha hput
    obtain ⟨bytes, hout, hread⟩ := (h (hc a ha)).reads ha hput
    refine ⟨bytes, hout, ?_⟩
    intro rest hrest
    apply bind_ok.mpr
    exact ⟨(), _, ensure_ok.mpr ⟨hc a ha, rfl⟩, hread rest hrest⟩
  · intro a bytes rest hget
    obtain ⟨_, mid, hensure, hget⟩ := bind_ok.mp hget
    obtain ⟨hholds, rfl⟩ := ensure_ok.mp hensure
    exact (h hholds).spells hget

/-- Nothing is written, and the value is the one that the components determine. -/
theorem Exact.lift {r : Except ε α} : Exact AnyRest (fun a => r = .ok a) (fun _ => pure ()) (lift r) := by
  constructor
  · intro a out out' hr hput
    cases hput
    exact ⟨[], (List.append_nil _).symm, fun rest _ => by rw [hr]; rfl⟩
  · intro a bytes rest hget
    cases hr : r with
    | error e => rw [hr] at hget; cases hget
    | ok b =>
        rw [hr] at hget
        cases hget
        exact ⟨rfl, trivial, [], rfl, fun out => by rw [List.append_nil]; rfl⟩

theorem Exact.finish {e : ε} {r : Except ε α} :
    Exact NoRest (fun a => r = .ok a) (fun _ => pure ()) (finish e r) := by
  constructor
  · intro a out out' hr hput
    cases hput
    refine ⟨[], (List.append_nil _).symm, ?_⟩
    rintro rest rfl
    rw [hr]
    rfl
  · intro a bytes rest hget
    unfold WireCodec.finish at hget
    split at hget
    · rename_i hbytes
      cases hr : r with
      | error e => rw [hr] at hget; cases hget
      | ok b =>
          rw [hr] at hget
          cases hget
          exact ⟨rfl, rfl, [], hbytes, fun out => by rw [List.append_nil]; rfl⟩
    · cases hget

/-- A value of a fixed number of bytes. -/
theorem Exact.fixed {e : ε} {n : ℕ} {encode : α → List UInt8} {d : List UInt8 → Except ε α}
    (hread : ∀ a, P a → (encode a).length = n ∧ d (encode a) = .ok a)
    (hspell : ∀ a bytes, bytes.length = n → d bytes = .ok a → P a ∧ encode a = bytes) :
    Exact AnyRest P (fun a => emit (encode a)) (take e n >>= fun bytes => WireCodec.lift (d bytes)) := by
  constructor
  · intro a out out' ha hput
    cases hput
    obtain ⟨hlength, hdecode⟩ := hread a ha
    refine ⟨encode a, rfl, ?_⟩
    intro rest _
    apply bind_ok.mpr
    exact ⟨_, _, take_ok.mpr ⟨hlength, rfl⟩, by rw [hdecode]; rfl⟩
  · intro a bytes rest hget
    obtain ⟨used, mid, htake, hlift⟩ := bind_ok.mp hget
    obtain ⟨hlength, rfl⟩ := take_ok.mp htake
    cases hdecode : d used with
    | error e => rw [hdecode] at hlift; cases hlift
    | ok b =>
        rw [hdecode] at hlift
        cases hlift
        obtain ⟨ha, henc⟩ := hspell a used hlength hdecode
        exact ⟨ha, trivial, used, rfl, fun out => by rw [henc]; rfl⟩

theorem Exact.each (h : Exact AnyRest P put get) (n : ℕ) :
    Exact AnyRest (fun xs => (∀ x ∈ xs, P x) ∧ xs.length = n) (putEach put) (getEach get n) := by
  induction n with
  | zero =>
      constructor
      · intro xs out out' hxs hput
        obtain rfl := List.length_eq_zero_iff.mp hxs.2
        cases hput
        exact ⟨[], (List.append_nil _).symm, fun rest _ => rfl⟩
      · intro xs bytes rest hget
        cases hget
        exact ⟨⟨fun x hx => absurd hx List.not_mem_nil, rfl⟩, trivial, [], rfl,
          fun out => by rw [List.append_nil]; rfl⟩
  | succ n ih =>
      constructor
      · intro xs out out' hxs hput
        obtain ⟨hall, hlength⟩ := hxs
        obtain ⟨x, xs, rfl⟩ := List.exists_cons_of_length_eq_add_one hlength
        obtain ⟨_, mid, hhead, htail⟩ := bind_ok.mp hput
        obtain ⟨hx, hall⟩ := List.forall_mem_cons.mp hall
        obtain ⟨p, rfl, hread⟩ := h.reads hx hhead
        obtain ⟨q, rfl, hreads⟩ := ih.reads ⟨hall, by simpa using hlength⟩ htail
        refine ⟨p ++ q, List.append_assoc .., ?_⟩
        intro rest hrest
        rw [List.append_assoc]
        apply bind_ok.mpr
        refine ⟨x, _, hread _ trivial, ?_⟩
        apply bind_ok.mpr
        exact ⟨xs, _, hreads rest hrest, rfl⟩
      · intro xs bytes rest hget
        obtain ⟨x, mid, hhead, hrest⟩ := bind_ok.mp hget
        obtain ⟨xs', mid', hgets, hpure⟩ := bind_ok.mp hrest
        cases hpure
        obtain ⟨hx, -, p, rfl, hput⟩ := h.spells hhead
        obtain ⟨⟨hall, hlength⟩, -, q, rfl, hputs⟩ := ih.spells hgets
        refine ⟨⟨List.forall_mem_cons.mpr ⟨hx, hall⟩, by simp [hlength]⟩, trivial, p ++ q,
          (List.append_assoc ..).symm, ?_⟩
        intro out
        apply bind_ok.mpr
        exact ⟨(), _, hput out, by rw [hputs, List.append_assoc]⟩

/-- An encoder that checks its value first writes only values that pass. -/
theorem Exact.checked {c : α → Prop} [DecidablePred c] {e : ε} (h : Exact R (fun a => P a ∧ c a) put get) :
    Exact R P (fun a => ensure (c a) e >>= fun _ => put a) get := by
  constructor
  · intro a out out' ha hput
    obtain ⟨_, mid, hensure, hput⟩ := bind_ok.mp hput
    obtain ⟨hc, rfl⟩ := ensure_ok.mp hensure
    exact h.reads ⟨ha, hc⟩ hput
  · intro a bytes rest hget
    obtain ⟨⟨ha, hc⟩, hrest, used, hbytes, hput⟩ := h.spells hget
    refine ⟨ha, hrest, used, hbytes, ?_⟩
    intro out
    apply bind_ok.mpr
    exact ⟨(), out, ensure_ok.mpr ⟨hc, rfl⟩, hput out⟩

/-- What the components read so far determine may be computed before the next one is read. -/
theorem Exact.settle {r : Except ε β} {k : β → Wire ε α} (hr : ∀ a, P a → ∃ x, r = .ok x)
    (h : ∀ x, r = .ok x → Exact R P put (k x)) : Exact R P put (WireCodec.lift r >>= k) := by
  have hlift : ∀ {x s}, r = .ok x → (WireCodec.lift r >>= k) s = k x s := by
    rintro x s rfl
    rfl
  constructor
  · intro a out out' ha hput
    obtain ⟨x, hx⟩ := hr a ha
    obtain ⟨bytes, hout, hread⟩ := (h x hx).reads ha hput
    exact ⟨bytes, hout, fun rest hrest => (hlift hx).trans (hread rest hrest)⟩
  · intro a bytes rest hget
    cases hx : r with
    | error e => rw [hx] at hget; cases hget
    | ok x => exact (h x hx).spells ((hlift hx).symm.trans hget)

theorem exact_u32 (e : ε) : Exact AnyRest (fun _ => True) putU32 (u32 e) := by
  apply Exact.fixed (d := fun bytes => .ok (UInt32.ofNat (LittleEndian.ofBytes bytes)))
  · intro n _
    refine ⟨LittleEndian.toBytes_length .., ?_⟩
    rw [LittleEndian.ofBytes_toBytes n.toNat_lt, UInt32.ofNat_toNat]
  · intro n bytes hlength h
    cases h
    refine ⟨trivial, ?_⟩
    have hlt := LittleEndian.ofBytes_lt bytes
    rw [hlength] at hlt
    rw [UInt32.toNat_ofNat_of_lt' hlt, ← hlength, LittleEndian.toBytes_ofBytes]

theorem exact_u64 (e : ε) : Exact AnyRest (fun _ => True) putU64 (u64 e) := by
  apply Exact.fixed (d := fun bytes => .ok (UInt64.ofNat (LittleEndian.ofBytes bytes)))
  · intro n _
    refine ⟨LittleEndian.toBytes_length .., ?_⟩
    rw [LittleEndian.ofBytes_toBytes n.toNat_lt, UInt64.ofNat_toNat]
  · intro n bytes hlength h
    cases h
    refine ⟨trivial, ?_⟩
    have hlt := LittleEndian.ofBytes_lt bytes
    rw [hlength] at hlt
    rw [UInt64.toNat_ofNat_of_lt' hlt, ← hlength, LittleEndian.toBytes_ofBytes]

/-- A list behind its length, which the decoder bounds before it reads on. -/
theorem Exact.counted {e e' : ε} {max : ℕ} (hmax : max < 2 ^ 32) (h : Exact AnyRest P put get) :
    Exact AnyRest (fun xs => (∀ x ∈ xs, P x) ∧ xs.length ≤ max)
      (fun xs => do
        putU32 (UInt32.ofNat xs.length)
        putEach put xs)
      (do
        let count ← u32 e
        ensure (count.toNat ≤ max) e'
        getEach get count.toNat) := by
  apply (exact_u32 e).bind (f := fun xs : List α => UInt32.ofNat xs.length)
  · intro count _
    have hcount : ∀ xs : List α, xs.length ≤ max → UInt32.ofNat xs.length = count → xs.length = count.toNat := by
      rintro xs hlength rfl
      rw [UInt32.toNat_ofNat_of_lt' (lt_of_le_of_lt hlength hmax)]
    apply Exact.guard
    · rintro xs ⟨⟨-, hlength⟩, heq⟩
      rw [← hcount xs hlength heq]
      exact hlength
    · intro hle
      apply (h.each count.toNat).iff
      intro xs
      constructor
      · rintro ⟨hall, hlength⟩
        exact ⟨⟨hall, hlength ▸ hle⟩, by rw [hlength, UInt32.ofNat_toNat]⟩
      · rintro ⟨⟨hall, hlength⟩, heq⟩
        exact ⟨hall, hcount xs hlength heq⟩
  · intro xs _
    trivial

theorem Exact.congr {put' : α → Wire ε Unit} (h : Exact R P put get) (hput : ∀ a, P a → put a = put' a) : Exact R P put' get := by
  constructor
  · intro a out out' ha hwrite
    rw [← hput a ha] at hwrite
    exact h.reads ha hwrite
  · intro a bytes rest hget
    obtain ⟨ha, hrest, used, hbytes, hwrite⟩ := h.spells hget
    refine ⟨ha, hrest, used, hbytes, ?_⟩
    intro out
    rw [← hput a ha]
    exact hwrite out

/-- The values of one kind. -/
theorem Exact.image {put' : β → Wire ε Unit} {g : α → β} (h : Exact R P put get) (hput : ∀ b, P b → put' (g b) = put b) :
    Exact R (fun a => ∃ b, P b ∧ g b = a) put' (get >>= fun b => pure (g b)) := by
  constructor
  · rintro _ out out' ⟨b, hb, rfl⟩ hwrite
    rw [hput b hb] at hwrite
    obtain ⟨bytes, hout, hread⟩ := h.reads hb hwrite
    refine ⟨bytes, hout, ?_⟩
    intro rest hrest
    exact bind_ok.mpr ⟨b, rest, hread rest hrest, rfl⟩
  · intro a bytes rest hget
    obtain ⟨b, mid, hb, hpure⟩ := bind_ok.mp hget
    cases hpure
    obtain ⟨hP, hrest, used, hbytes, hwrite⟩ := h.spells hb
    refine ⟨⟨b, hP, rfl⟩, hrest, used, hbytes, ?_⟩
    intro out
    rw [hput b hP]
    exact hwrite out

theorem Exact.never {e : ε} (h : ∀ a, ¬P a) : Exact R P put (WireCodec.lift (.error e)) :=
  ⟨fun ha => absurd ha (h _), fun hget => nomatch hget⟩

/-- The input ends behind the value. -/
theorem Exact.ends {e : ε} (h : Exact AnyRest P put get) : Exact NoRest P put (get >>= fun a => WireCodec.finish e (.ok a)) := by
  apply h.last (f := id)
  · intro x hx
    apply Exact.finish.iff
    intro a
    constructor
    · rintro ⟨rfl⟩
      exact ⟨hx, rfl⟩
    · rintro ⟨-, rfl⟩
      rfl
  · exact fun _ ha => ha

end Exact

section Measured

/-- The encoder writes `size` bytes if `ok` holds, and fails otherwise. -/
structure Measured (x : Wire ε Unit) (size : ℕ) (ok : Prop) : Prop where
  writes : ok → ∀ out, ∃ out', x out = .ok ((), out') ∧ out'.length = out.length + size
  fails : ¬ok → ∀ out, ∃ e, x out = .error e

variable {x y : Wire ε Unit} {m n : ℕ} {p q : Prop}

theorem Measured.of_eq (h : Measured x m p) (hsize : m = n) (hiff : p ↔ q) : Measured x n q := by
  subst hsize
  exact ⟨fun hq => h.writes (hiff.mpr hq), fun hq => h.fails fun hp => hq (hiff.mp hp)⟩

theorem Measured.emit (bytes : List UInt8) : Measured (emit bytes : Wire ε Unit) bytes.length True :=
  ⟨fun _ _ => ⟨_, rfl, List.length_append⟩, fun h => absurd trivial h⟩

theorem Measured.ensure {c : Prop} [Decidable c] {e : ε} : Measured (ensure c e) 0 c :=
  ⟨fun hc out => ⟨out, ensure_ok.mpr ⟨hc, rfl⟩, rfl⟩, fun hc _ => ⟨e, if_neg hc⟩⟩

theorem Measured.bind (hx : Measured x m p) (hy : Measured y n q) : Measured (x >>= fun _ => y) (m + n) (p ∧ q) := by
  constructor
  · rintro ⟨hp, hq⟩ out
    obtain ⟨mid, hmid, hlength⟩ := hx.writes hp out
    obtain ⟨out', hout', hlength'⟩ := hy.writes hq mid
    exact ⟨out', bind_ok.mpr ⟨(), mid, hmid, hout'⟩, by omega⟩
  · intro hnot out
    cases hresult : (x >>= fun _ => y) out with
    | error e => exact ⟨e, rfl⟩
    | ok r =>
        obtain ⟨_, mid, hmid, hrest⟩ := bind_ok.mp (show (x >>= fun _ => y) out = .ok (r.1, r.2) from hresult)
        by_cases hp : p
        · by_cases hq : q
          · exact absurd ⟨hp, hq⟩ hnot
          · obtain ⟨e, he⟩ := hy.fails hq mid
            cases he.symm.trans hrest
        · obtain ⟨e, he⟩ := hx.fails hp out
          cases he.symm.trans hmid

theorem Measured.each {put : α → Wire ε Unit} {size : α → ℕ} {ok : α → Prop} (h : ∀ a, Measured (put a) (size a) (ok a))
    (xs : List α) : Measured (putEach put xs) (xs.map size).sum (∀ x ∈ xs, ok x) := by
  induction xs with
  | nil => exact ⟨fun _ out => ⟨out, rfl, rfl⟩, fun hnot => absurd (fun x hx => absurd hx List.not_mem_nil) hnot⟩
  | cons x xs ih => exact ((h x).bind ih).of_eq (by simp) List.forall_mem_cons.symm

theorem Measured.u32 (n : UInt32) : Measured (putU32 n : Wire ε Unit) 4 True :=
  (Measured.emit _).of_eq (LittleEndian.toBytes_length ..) Iff.rfl

theorem Measured.u64 (n : UInt64) : Measured (putU64 n : Wire ε Unit) 8 True :=
  (Measured.emit _).of_eq (LittleEndian.toBytes_length ..) Iff.rfl

end Measured

section Agreement

variable {x x' y y' : Wire ε Unit} {r s : Prop}

/-- Two encoders append bytes that agree, whatever is written behind them, only if `r` holds, and
then they end at the same place. -/
def Agreement (x y : Wire ε Unit) (r : Prop) : Prop :=
  ∀ ⦃out out' e f⦄, x out = .ok ((), e) → y out' = .ok ((), f) →
    ∃ b c, e = out ++ b ∧ f = out' ++ c ∧ ∀ s t, b ++ s = c ++ t → r ∧ s = t

theorem Agreement.imp (h : Agreement x y r) (himp : r → s) : Agreement x y s := by
  intro out out' e f hx hy
  obtain ⟨b, c, hb, hc, hagree⟩ := h hx hy
  exact ⟨b, c, hb, hc, fun s t heq => (hagree s t heq).imp_left himp⟩

theorem Agreement.pure (h : r) : Agreement (pure () : Wire ε Unit) (pure ()) r := by
  intro out out' e f hx hy
  cases hx
  cases hy
  exact ⟨[], [], (List.append_nil _).symm, (List.append_nil _).symm, fun s t heq => ⟨h, heq⟩⟩

theorem Agreement.bind (h : Agreement x y r) (h' : Agreement x' y' s) :
    Agreement (x >>= fun _ => x') (y >>= fun _ => y') (r ∧ s) := by
  intro out out' e f hx hy
  obtain ⟨_, mid, hx, hx'⟩ := bind_ok.mp hx
  obtain ⟨_, mid', hy, hy'⟩ := bind_ok.mp hy
  obtain ⟨b, c, rfl, rfl, hagree⟩ := h hx hy
  obtain ⟨b', c', rfl, rfl, hagree'⟩ := h' hx' hy'
  refine ⟨b ++ b', c ++ c', List.append_assoc .., List.append_assoc .., fun s t heq => ?_⟩
  rw [List.append_assoc, List.append_assoc] at heq
  obtain ⟨hr, hrest⟩ := hagree _ _ heq
  obtain ⟨hs, hst⟩ := hagree' _ _ hrest
  exact ⟨⟨hr, hs⟩, hst⟩

/-- Encoders that differ at their beginning differ, whatever each of them goes on to write. -/
theorem Agreement.apart (h : Agreement x y False) (hx : Agreement x' x' r) (hy : Agreement y' y' s) :
    Agreement (x >>= fun _ => x') (y >>= fun _ => y') False := by
  intro out out' e f hxok hyok
  obtain ⟨_, mid, hxok, hxok'⟩ := bind_ok.mp hxok
  obtain ⟨_, mid', hyok, hyok'⟩ := bind_ok.mp hyok
  obtain ⟨b, c, rfl, rfl, hagree⟩ := h hxok hyok
  obtain ⟨b', -, rfl, -, -⟩ := hx hxok' hxok'
  obtain ⟨c', -, rfl, -, -⟩ := hy hyok' hyok'
  refine ⟨b ++ b', c ++ c', List.append_assoc .., List.append_assoc .., fun s t heq => ?_⟩
  rw [List.append_assoc, List.append_assoc] at heq
  exact (hagree _ _ heq).1.elim

theorem Agreement.symm (h : Agreement x y r) : Agreement y x r := by
  intro out out' e f hx hy
  obtain ⟨b, c, hb, hc, hagree⟩ := h hy hx
  exact ⟨c, b, hc, hb, fun s t heq => (hagree t s heq.symm).imp_right Eq.symm⟩

theorem Agreement.checked_left {c : Prop} [Decidable c] {e : ε} (h : c → Agreement x y r) :
    Agreement (ensure c e >>= fun _ => x) y r := by
  intro out out' e f hx hy
  obtain ⟨_, mid, hcheck, hx⟩ := bind_ok.mp hx
  obtain ⟨hc, rfl⟩ := ensure_ok.mp hcheck
  exact h hc hx hy

theorem Agreement.checked {c d : Prop} [Decidable c] [Decidable d] {e f : ε} (h : c → d → Agreement x y r) :
    Agreement (ensure c e >>= fun _ => x) (ensure d f >>= fun _ => y) r :=
  .checked_left fun hc => (Agreement.checked_left fun hd => (h hc hd).symm).symm

theorem Agreement.of_reveals {P : α → Prop} {put : α → List UInt8} {R : α → α → Prop} (h : Reveals P put R) {a b : α}
    (ha : P a) (hb : P b) : Agreement (emit (put a) : Wire ε Unit) (emit (put b)) (R a b) := by
  intro out out' e f hx hy
  cases hx
  cases hy
  exact ⟨put a, put b, rfl, rfl, fun s t heq => h ha hb heq⟩

theorem Agreement.const (bytes : List UInt8) : Agreement (emit bytes : Wire ε Unit) (emit bytes) True :=
  .of_reveals (reveals_const (P := fun _ : Unit => True) bytes) (a := ()) (b := ()) trivial trivial

theorem Agreement.each {put : α → Wire ε Unit} (h : ∀ a b, Agreement (put a) (put b) (a = b)) {as : List α} :
    ∀ {bs : List α}, as.length = bs.length → Agreement (putEach put as) (putEach put bs) (as = bs) := by
  induction as with
  | nil =>
      intro bs hlength
      obtain rfl := List.length_eq_zero_iff.mp hlength.symm
      exact .pure rfl
  | cons a as ih =>
      intro bs hlength
      obtain ⟨b, bs, rfl⟩ := List.exists_cons_of_length_eq_add_one hlength.symm
      apply ((h a b).bind (ih (Nat.succ.inj hlength))).imp
      rintro ⟨rfl, rfl⟩
      rfl

theorem Agreement.of_eq (h : Agreement x y r) {bytes : List UInt8} (hx : x [] = .ok ((), bytes)) (hy : y [] = .ok ((), bytes)) :
    r := by
  obtain ⟨b, c, rfl, heq, hagree⟩ := h hx hy
  exact (hagree [] [] (congrArg (· ++ []) heq)).1

end Agreement

end Zkie.WireCodec
