import MinOS.Library.Arrays

namespace Library.Fields

open Library.Words Library.Arrays

section Bits

def bits (v lo w : ℕ) : ℕ := v / 2 ^ lo % 2 ^ w

def setBits (v lo w x : ℕ) : ℕ := v % 2 ^ lo + 2 ^ lo * (x % 2 ^ w + 2 ^ w * (v / 2 ^ (lo + w)))

variable {v lo w lo' w' n : ℕ}

theorem bits_mod (h : lo + w ≤ n) : bits (v % 2 ^ n) lo w = bits v lo w := by
  obtain ⟨k, rfl⟩ := Nat.exists_eq_add_of_le h
  have hdvd : 2 ^ w ∣ 2 ^ w * 2 ^ k := Nat.dvd_mul_right _ _
  rw [bits, bits, Nat.add_assoc, Nat.pow_add, Nat.mod_mul_right_div_self, Nat.pow_add,
    Nat.mod_mod_of_dvd _ hdvd]

theorem bits_div (h : n ≤ lo) : bits (v / 2 ^ n) (lo - n) w = bits v lo w := by
  obtain ⟨k, rfl⟩ := Nat.exists_eq_add_of_le h
  rw [bits, bits, Nat.add_sub_cancel_left, Nat.div_div_eq_div_mul, Nat.pow_add]

theorem setBits_div (v lo w x : ℕ) :
    setBits v lo w x / 2 ^ lo = x % 2 ^ w + 2 ^ w * (v / 2 ^ (lo + w)) := by
  have hlow : v % 2 ^ lo < 2 ^ lo := Nat.mod_lt _ (Nat.two_pow_pos lo)
  rw [setBits, Nat.add_mul_div_left _ _ (Nat.two_pow_pos lo), Nat.div_eq_of_lt hlow, Nat.zero_add]

theorem bits_setBits_self (v lo w x : ℕ) : bits (setBits v lo w x) lo w = x % 2 ^ w := by
  rw [bits, setBits_div, Nat.add_mul_mod_self_left, Nat.mod_mod]

theorem bits_setBits_apart {x : ℕ} (h : lo' + w' ≤ lo ∨ lo + w ≤ lo') :
    bits (setBits v lo w x) lo' w' = bits v lo' w' := by
  rcases h with h | h
  · have hlow : setBits v lo w x % 2 ^ lo = v % 2 ^ lo := by
      rw [setBits, Nat.add_mul_mod_self_left, Nat.mod_mod]
    rw [← bits_mod h, hlow, bits_mod h]
  · have hhigh : setBits v lo w x / 2 ^ (lo + w) = v / 2 ^ (lo + w) := by
      have hlow : x % 2 ^ w < 2 ^ w := Nat.mod_lt _ (Nat.two_pow_pos w)
      rw [Nat.pow_add, ← Nat.div_div_eq_div_mul, setBits_div,
        Nat.add_mul_div_left _ _ (Nat.two_pow_pos w), Nat.div_eq_of_lt hlow, Nat.zero_add, Nat.pow_add]
    rw [← bits_div h, hhigh, bits_div h]

end Bits

section Load

def load (m : Memory) (a : Word) : ℕ → ℕ
  | 0 => 0
  | n + 1 => load m a n + 256 ^ n * (m (offset a n)).toNat

variable {m m' : Memory} {a : Word} {n k : ℕ}

theorem load_congr (hn : n ≤ 2 ^ 64) (h : ∀ x, InRegion a n x → m' x = m x) :
    load m' a n = load m a n := by
  induction n with
  | zero => rfl
  | succ n ih =>
    have hlast : InRegion a (n + 1) (offset a n) := by
      unfold InRegion offset
      bv_omega
    have hrest : load m' a n = load m a n := ih (by omega) (fun x hx => h x (hx.mono (by omega)))
    rw [load, load, hrest, h _ hlast]

theorem load_zero (h : ∀ k, k < n → m (offset a k) = 0) : load m a n = 0 := by
  induction n with
  | zero => rfl
  | succ n ih =>
    have hrest : load m a n = 0 := ih (fun k hk => h k (by omega))
    rw [load, hrest, h n (by omega)]
    rfl

theorem load_storeBytes (v : ℕ) (hn : n ≤ 2 ^ 64) :
    load (storeBytes m a (fun i => BitVec.ofNat 8 (v / 256 ^ i)) n) a n = v % 256 ^ n := by
  have hpart : ∀ k, k ≤ n →
      load (storeBytes m a (fun i => BitVec.ofNat 8 (v / 256 ^ i)) n) a k = v % 256 ^ k := by
    intro k hk
    induction k with
    | zero => rw [load, pow_zero, Nat.mod_one]
    | succ k ih =>
      have hnext : v % 256 ^ (k + 1) = v % 256 ^ k + 256 ^ k * (v / 256 ^ k % 2 ^ 8) := Nat.mod_pow_succ
      rw [load, ih (by omega), storeBytes_eq _ hn (by omega), BitVec.toNat_ofNat, hnext]
  exact hpart n (le_refl n)

end Load

structure Field where
  offset : ℕ
  size : ℕ
  lo : ℕ
  width : ℕ
  fits : lo + width ≤ 8 * size

namespace Field

def bytes (offset size : ℕ) : Field := ⟨offset, size, 0, 8 * size, by omega⟩

def Apart (f g : Field) : Prop :=
  f.offset + f.size ≤ g.offset ∨ g.offset + g.size ≤ f.offset ∨
    f.offset = g.offset ∧ f.size = g.size ∧ (f.lo + f.width ≤ g.lo ∨ g.lo + g.width ≤ f.lo)

instance (f g : Field) : Decidable (f.Apart g) := inferInstanceAs (Decidable (_ ∨ _))

def Near (f : Field) : Prop := f.offset + f.size ≤ 2 ^ 32

instance (f : Field) : Decidable f.Near := inferInstanceAs (Decidable (_ ≤ _))

def get (f : Field) (m : Memory) (a : Word) : ℕ :=
  bits (load m (Arrays.offset a f.offset) f.size) f.lo f.width

theorem Apart.symm {f g : Field} (h : f.Apart g) : g.Apart f := by
  unfold Apart at *
  omega

end Field

structure Store where
  addr : Word
  bytes : ℕ
deriving DecidableEq

structure Traced where
  mem : Memory
  stores : List Store

namespace Traced

def fill (s : Traced) (a : Word) (f : ℕ → BitVec 8) (n : ℕ) : Traced :=
  ⟨storeBytes s.mem a f n, s.stores ++ [⟨a, n⟩]⟩

def put (s : Traced) (a : Word) (f : Field) (x : ℕ) : Traced :=
  let unit := offset a f.offset
  let v := setBits (load s.mem unit f.size) f.lo f.width x
  s.fill unit (fun i => BitVec.ofNat 8 (v / 256 ^ i)) f.size

end Traced

section Put

variable {s : Traced} {a : Word} {f g : Field} {x : ℕ}

theorem load_put (hf : f.Near) : load (s.put a f x).mem (offset a f.offset) f.size =
    setBits (load s.mem (offset a f.offset) f.size) f.lo f.width x % 2 ^ (8 * f.size) := by
  unfold Field.Near at hf
  have hbytes : 256 ^ f.size = 2 ^ (8 * f.size) := by rw [Nat.pow_mul]
  rw [← hbytes]
  exact load_storeBytes _ (by omega)

theorem get_put_self (hf : f.Near) : f.get (s.put a f x).mem a = x % 2 ^ f.width := by
  rw [Field.get, load_put hf, bits_mod f.fits, bits_setBits_self]

theorem load_put_apart (hf : f.Near) (hg : g.Near)
    (h : f.offset + f.size ≤ g.offset ∨ g.offset + g.size ≤ f.offset) :
    load (s.put a f x).mem (offset a g.offset) g.size = load s.mem (offset a g.offset) g.size := by
  unfold Field.Near at hf hg
  apply load_congr (by omega)
  intro y hy
  apply storeBytes_other
  unfold InRegion offset at *
  bv_omega

theorem get_put_apart (hf : f.Near) (hg : g.Near) (h : f.Apart g) :
    g.get (s.put a f x).mem a = g.get s.mem a := by
  rcases h with h | h | ⟨ho, hs, hbits⟩
  · rw [Field.get, load_put_apart hf hg (.inl h), Field.get]
  · rw [Field.get, load_put_apart hf hg (.inr h), Field.get]
  · have hfits : g.lo + g.width ≤ 8 * f.size := hs ▸ g.fits
    rw [Field.get, Field.get, ← ho, ← hs, load_put hf, bits_mod hfits, bits_setBits_apart (by omega)]

theorem get_fill_zero {n o : ℕ} (hn : n ≤ 2 ^ 32) (h : o + f.offset + f.size ≤ n) :
    f.get (s.fill a (fun _ => 0) n).mem (offset a o) = 0 := by
  rw [Field.get, offset_offset, load_zero, bits, Nat.zero_div, Nat.zero_mod]
  intro k hk
  rw [offset_offset]
  exact storeBytes_eq _ (by omega) (by omega)

end Put

section PutAll

def Traced.putAll (s : Traced) (a : Word) : List (Field × ℕ) → Traced
  | [] => s
  | p :: fields => (s.put a p.1 p.2).putAll a fields

def Layout (fields : List Field) (n : ℕ) : Prop :=
  fields.Pairwise Field.Apart ∧ ∀ f ∈ fields, f.offset + f.size ≤ n

instance (fields : List Field) (n : ℕ) : Decidable (Layout fields n) :=
  inferInstanceAs (Decidable (_ ∧ _))

variable {s : Traced} {a : Word} {f g : Field} {x n : ℕ} {fields : List (Field × ℕ)}

theorem get_putAll_apart (hg : g.Near) (h : ∀ f ∈ fields.map Prod.fst, f.Near ∧ f.Apart g) :
    g.get (s.putAll a fields).mem a = g.get s.mem a := by
  induction fields generalizing s with
  | nil => rfl
  | cons p fields ih =>
    obtain ⟨hp, hrest⟩ := List.forall_mem_cons.mp h
    rw [Traced.putAll, ih hrest, get_put_apart hp.1 hg hp.2]

theorem get_putAll (hl : Layout (fields.map Prod.fst) n) (hn : n ≤ 2 ^ 32) (hf : (f, x) ∈ fields) :
    f.get (s.putAll a fields).mem a = x % 2 ^ f.width := by
  induction fields generalizing s with
  | nil => exact absurd hf List.not_mem_nil
  | cons p fields ih =>
    obtain ⟨hapart, hrest⟩ := List.pairwise_cons.mp hl.1
    obtain ⟨hp, hin⟩ := List.forall_mem_cons.mp hl.2
    have hnear : ∀ g ∈ fields.map Prod.fst, g.Near := fun g hg => le_trans (hin g hg) hn
    rcases List.mem_cons.mp hf with rfl | hf
    · have hfn : f.Near := le_trans hp hn
      have hkeep : ∀ g ∈ fields.map Prod.fst, g.Near ∧ g.Apart f :=
        fun g hg => ⟨hnear g hg, (hapart g hg).symm⟩
      rw [Traced.putAll, get_putAll_apart hfn hkeep, get_put_self hfn]
    · exact ih ⟨hrest, hin⟩ hf

end PutAll

section Wrote

structure Wrote (new : List Store) (s t : Traced) : Prop where
  stores : t.stores = s.stores ++ new
  mem : ∀ x, (∀ e ∈ new, ¬ InRegion e.addr e.bytes x) → t.mem x = s.mem x

def Inside (R : Word → Prop) (stores : List Store) : Prop :=
  ∀ e ∈ stores, ∀ x, InRegion e.addr e.bytes x → R x

def Field.store (a : Word) (f : Field) : Store := ⟨Arrays.offset a f.offset, f.size⟩

variable {R R' : Word → Prop} {s t u : Traced} {a : Word} {f : Field} {n : ℕ}
  {new new' : List Store} {fields : List Field}

theorem Wrote.refl (s : Traced) : Wrote [] s s := ⟨(List.append_nil _).symm, fun _ _ => rfl⟩

theorem Wrote.trans (h : Wrote new s t) (h' : Wrote new' t u) : Wrote (new ++ new') s u := by
  constructor
  · rw [h'.stores, h.stores, List.append_assoc]
  · intro x hx
    rw [h'.mem x (fun e he => hx e (List.mem_append_right _ he)),
      h.mem x (fun e he => hx e (List.mem_append_left _ he))]

theorem wrote_fill (s : Traced) (a : Word) (b : ℕ → BitVec 8) (n : ℕ) :
    Wrote [⟨a, n⟩] s (s.fill a b n) :=
  ⟨rfl, fun _ hx => storeBytes_other b (hx _ (List.mem_singleton_self _))⟩

theorem wrote_putAll (s : Traced) (a : Word) (fields : List (Field × ℕ)) :
    Wrote ((fields.map Prod.fst).map (Field.store a)) s (s.putAll a fields) := by
  induction fields generalizing s with
  | nil => exact .refl s
  | cons p fields ih => exact (wrote_fill s _ _ _).trans (ih _)

theorem Inside.mono (h : Inside R new) (hR : ∀ x, R x → R' x) : Inside R' new :=
  fun e he x hx => hR x (h e he x hx)

theorem inside_append : Inside R (new ++ new') ↔ Inside R new ∧ Inside R new' :=
  List.forall_mem_append

theorem Layout.inside (h : Layout fields n) (hn : n ≤ 2 ^ 32) :
    Inside (InRegion a n) (fields.map (Field.store a)) := by
  intro e he x hx
  obtain ⟨f, hf, rfl⟩ := List.mem_map.mp he
  have := h.2 f hf
  have hshift : InRegion a (f.offset + f.size) x := InRegion.shift hx (by omega)
  exact hshift.mono this

theorem Wrote.get (h : Wrote new s t) (hin : Inside R new) (hf : f.Near)
    (hout : ∀ x, InRegion (offset a f.offset) f.size x → ¬ R x) : f.get t.mem a = f.get s.mem a := by
  unfold Field.Near at hf
  have hload : load t.mem (offset a f.offset) f.size = load s.mem (offset a f.offset) f.size := by
    apply load_congr (by omega)
    intro x hx
    exact h.mem x (fun e he hxe => hout x hx (hin e he x hxe))
  rw [Field.get, hload, Field.get]

end Wrote

end Library.Fields
