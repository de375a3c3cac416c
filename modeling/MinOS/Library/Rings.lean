import Mathlib.Data.List.Chain
import Mathlib.Data.List.Nodup

/-!
Circular singly linked lists over an arbitrary successor function, and the two
loops that walk round them: `walk` stops at the first node with a property,
`search` keeps the node before the one it looks at and gives up once it has
looked at `stop`.
-/

namespace Library.Rings

variable {α : Type}

def Circular (next : α → α) (x : α) (xs : List α) : Prop :=
  List.IsChain (fun a b => next a = b) (x :: (xs ++ [x]))

def walk (next : α → α) (found : α → Bool) : ℕ → α → Option α
  | 0, _ => none
  | n + 1, q => if found q then some q else walk next found n (next q)

def search [DecidableEq α] (next : α → α) (fits : α → Bool) (stop : α) :
    ℕ → α → α → Option (Option (α × α))
  | 0, _, _ => none
  | n + 1, q, p =>
    if fits p then some (some (q, p))
    else if p = stop then some none
    else search next fits stop n p (next p)

def ring [DecidableEq α] (next : α → α) (x : α) : ℕ → α → Option (List α)
  | 0, _ => none
  | n + 1, p => if next p = x then some [] else (ring next x n (next p)).map (next p :: ·)

theorem chain_congr {next next' : α → α} {pre : List α} {q : α}
    (h : List.IsChain (fun a b => next a = b) (pre ++ [q]))
    (hpre : ∀ a ∈ pre, next' a = next a) :
    List.IsChain (fun a b => next' a = b) (pre ++ [q]) := by
  induction pre with
  | nil => simp
  | cons a pre ih =>
    have htail := ih h.tail (fun b hb => hpre b (List.mem_cons_of_mem _ hb))
    cases pre with
    | nil =>
      simp only [List.cons_append, List.nil_append, List.isChain_cons_cons, List.isChain_singleton,
        and_true] at h ⊢
      rw [hpre a (by simp), h]
    | cons b pre =>
      simp only [List.cons_append, List.isChain_cons_cons] at h htail ⊢
      exact ⟨by rw [hpre a (by simp), h.1], htail⟩

theorem Circular.rotate {next : α → α} {x y : α} {as bs : List α}
    (h : Circular next x (as ++ y :: bs)) : Circular next y (bs ++ x :: as) := by
  have hx : x :: ((as ++ y :: bs) ++ [x]) = (x :: as) ++ y :: (bs ++ [x]) := by simp
  have hy : y :: ((bs ++ x :: as) ++ [y]) = (y :: bs) ++ x :: (as ++ [y]) := by simp
  rw [Circular, hx, List.isChain_split] at h
  rw [Circular, hy, List.isChain_split]
  exact ⟨h.2, h.1⟩

theorem Circular.rotate_to {next : α → α} {x y : α} {xs : List α} (h : Circular next x xs)
    (hy : y ∈ x :: xs) : ∃ ys, Circular next y ys ∧ (y :: ys).Perm (x :: xs) := by
  rcases List.mem_cons.mp hy with rfl | hy
  · exact ⟨xs, h, .refl _⟩
  · obtain ⟨as, bs, rfl⟩ := List.append_of_mem hy
    have hperm : ((y :: bs) ++ (x :: as)).Perm ((x :: as) ++ (y :: bs)) := List.perm_append_comm
    exact ⟨bs ++ x :: as, h.rotate, hperm⟩

theorem Circular.chain {next : α → α} {x : α} {xs : List α} (h : Circular next x xs) :
    List.IsChain (fun a b => next a = b) (x :: xs) := by
  rw [Circular, ← List.cons_append] at h
  exact h.left_of_append

theorem Circular.next_last {next : α → α} {x q : α} {pre as bs : List α}
    (h : Circular next x (as ++ bs)) (hq : x :: as = pre ++ [q]) : next q = bs.headD x := by
  have hshape : x :: (as ++ bs ++ [x]) = pre ++ q :: (bs ++ [x]) := by
    calc x :: (as ++ bs ++ [x]) = (x :: as) ++ (bs ++ [x]) := by simp
      _ = pre ++ q :: (bs ++ [x]) := by rw [hq]; simp
  rw [Circular, hshape, List.isChain_split] at h
  cases bs with
  | nil => exact (List.isChain_cons_cons.mp h.2).1
  | cons b bs => exact (List.isChain_cons_cons.mp h.2).1

theorem Circular.split_at {next : α → α} {x w : α} {xs : List α} (h : Circular next x xs)
    (hw : w ∈ x :: xs) : ∃ pre as ds, x :: as = pre ++ [w] ∧ xs = as ++ ds ∧
      next w = ds.headD x := by
  obtain ⟨pre, ds, hs⟩ := List.append_of_mem hw
  obtain ⟨as, has⟩ : ∃ as, x :: as = pre ++ [w] := by
    cases pre with
    | nil => exact ⟨[], by rw [(List.cons.inj hs).1]; rfl⟩
    | cons c pre => exact ⟨pre ++ [w], by rw [(List.cons.inj hs).1]; rfl⟩
  have hxs : xs = as ++ ds := by
    have : x :: xs = x :: (as ++ ds) := by
      rw [hs, ← List.cons_append, has]; simp
    exact (List.cons.inj this).2
  exact ⟨pre, as, ds, has, hxs, (hxs ▸ h).next_last has⟩

theorem Circular.next_mem {next : α → α} {x y : α} {xs : List α} (h : Circular next x xs)
    (hy : y ∈ x :: xs) : next y ∈ x :: xs := by
  obtain ⟨_, as, ds, _, rfl, hnext⟩ := h.split_at hy
  rw [hnext]
  cases ds <;> simp

theorem Circular.relink {next next' : α → α} {x q : α} {pre as ms ms' bs : List α}
    (h : Circular next x (as ++ ms ++ bs)) (hq : x :: as = pre ++ [q])
    (hpre : ∀ a ∈ pre, next' a = next a) (hbs : ∀ b ∈ bs, next' b = next b)
    (hmid : List.IsChain (fun a b => next' a = b) (q :: (ms' ++ [bs.headD x]))) :
    Circular next' x (as ++ ms' ++ bs) := by
  obtain ⟨post, hr⟩ : ∃ post, bs ++ [x] = bs.headD x :: post := by
    cases bs with
    | nil => exact ⟨[], rfl⟩
    | cons b bs => exact ⟨bs ++ [x], rfl⟩
  have hshape : ∀ ls : List α,
      x :: (as ++ ls ++ bs ++ [x]) = pre ++ q :: (ls ++ bs.headD x :: post) := by
    intro ls
    calc x :: (as ++ ls ++ bs ++ [x]) = (x :: as) ++ (ls ++ (bs ++ [x])) := by simp
      _ = pre ++ q :: (ls ++ bs.headD x :: post) := by rw [hq, hr]; simp
  rw [Circular, hshape, List.isChain_split, List.isChain_cons_split] at h
  rw [Circular, hshape, List.isChain_split, List.isChain_cons_split]
  refine ⟨chain_congr h.1 hpre, hmid, ?_⟩
  rw [← hr] at h ⊢
  exact chain_congr h.2.2 hbs

theorem Circular.congr {next next' : α → α} {x : α} {xs : List α} (h : Circular next x xs)
    (hn : ∀ a ∈ x :: xs, next' a = next a) : Circular next' x xs := by
  rw [Circular, ← List.cons_append] at h ⊢
  exact chain_congr h hn

theorem walk_chain {next : α → α} (found : α → Bool) {y z : α} {ys : List α} {n : ℕ}
    (h : List.IsChain (fun a b => next a = b) (y :: ys)) (hz : z ∈ y :: ys)
    (hf : found z = true) (hn : ys.length < n) :
    ∃ as w bs, y :: ys = as ++ w :: bs ∧ found w = true ∧ (∀ a ∈ as, found a = false) ∧
      walk next found n y = some w := by
  induction ys generalizing y n with
  | nil =>
    obtain ⟨n, rfl⟩ : ∃ m, n = m + 1 := ⟨n - 1, by omega⟩
    have hy : found y = true := by simpa using List.mem_singleton.mp hz ▸ hf
    exact ⟨[], y, [], rfl, hy, by simp, by simp [walk, hy]⟩
  | cons y' ys ih =>
    obtain ⟨n, rfl⟩ : ∃ m, n = m + 1 := ⟨n - 1, by omega⟩
    obtain ⟨hnext, htail⟩ := List.isChain_cons_cons.mp h
    by_cases hy : found y = true
    · exact ⟨[], y, y' :: ys, rfl, hy, by simp, by simp [walk, hy]⟩
    · have hz' : z ∈ y' :: ys := by
        rcases List.mem_cons.mp hz with rfl | hz'
        · exact absurd hf hy
        · exact hz'
      obtain ⟨as, w, bs, he, hw, has, hwalk⟩ := ih htail hz' (by simpa using hn)
      refine ⟨y :: as, w, bs, by rw [he]; rfl, hw, ?_, ?_⟩
      · intro a ha
        rcases List.mem_cons.mp ha with rfl | ha
        · simpa using hy
        · exact has a ha
      · rw [walk, if_neg hy, hnext, hwalk]

theorem Circular.walk {next : α → α} {found : α → Bool} {x y z : α} {xs : List α} {n : ℕ}
    (h : Circular next x xs) (hy : y ∈ x :: xs) (hz : z ∈ x :: xs) (hf : found z = true)
    (hn : xs.length < n) :
    ∃ w ∈ x :: xs, found w = true ∧ walk next found n y = some w := by
  obtain ⟨ys, hring, hperm⟩ := h.rotate_to hy
  have hlen : ys.length = xs.length := by simpa using hperm.length_eq
  obtain ⟨as, w, bs, he, hw, -, hwalk⟩ := walk_chain (n := n) found
    hring.chain (hperm.mem_iff.mpr hz) hf (by omega)
  exact ⟨w, hperm.mem_iff.mp (by rw [he]; simp), hw, hwalk⟩

theorem exists_pred {next : α → α} {y c : α} {ys : List α}
    (h : List.IsChain (fun a b => next a = b) (y :: ys)) (hc : c ∈ ys) :
    ∃ b ∈ (y :: ys).dropLast, next b = c := by
  induction ys generalizing y with
  | nil => simp at hc
  | cons y' ys ih =>
    obtain ⟨hnext, htail⟩ := List.isChain_cons_cons.mp h
    rcases List.mem_cons.mp hc with rfl | hc
    · exact ⟨y, by simp, hnext⟩
    · obtain ⟨b, hb, hbc⟩ := ih htail hc
      exact ⟨b, by rw [List.dropLast_cons_cons]; exact List.mem_cons_of_mem _ hb, hbc⟩

theorem chain_unique {next : α → α} {x y : α} {xs ys : List α}
    (h : List.IsChain (fun a b => next a = b) (y :: (xs ++ [x])))
    (h' : List.IsChain (fun a b => next a = b) (y :: (ys ++ [x]))) (hx : x ∉ xs) (hy : x ∉ ys) :
    xs = ys := by
  induction xs generalizing y ys with
  | nil =>
    cases ys with
    | nil => rfl
    | cons b ys =>
      have hb : x = b := (List.isChain_cons_cons.mp h).1 ▸ (List.isChain_cons_cons.mp h').1
      exact absurd (by simp [hb]) hy
  | cons a xs ih =>
    obtain ⟨ha, h⟩ := List.isChain_cons_cons.mp h
    cases ys with
    | nil =>
      have hax : a = x := ha ▸ (List.isChain_cons_cons.mp h').1
      exact absurd (by simp [hax]) hx
    | cons b ys =>
      obtain ⟨hb, h'⟩ := List.isChain_cons_cons.mp h'
      obtain rfl : a = b := ha.symm.trans hb
      rw [ih h h' (fun hm => hx (List.mem_cons_of_mem _ hm)) (fun hm => hy (List.mem_cons_of_mem _ hm))]

theorem Circular.unique {next : α → α} {x : α} {xs ys : List α} (h : Circular next x xs)
    (h' : Circular next x ys) (hx : x ∉ xs) (hy : x ∉ ys) : xs = ys :=
  chain_unique h h' hx hy

/-- `p` is the first node with room met on the way round from `stop`. -/
def FirstFit (next : α → α) (fits : α → Bool) (stop p : α) : Prop :=
  ∃ as, List.IsChain (fun a b => next a = b) (stop :: (as ++ [p])) ∧
    (∀ a ∈ as, a ≠ stop ∧ fits a = false) ∧ fits p = true

theorem FirstFit.mem {next : α → α} {fits : α → Bool} {x stop p : α} {xs : List α}
    (h : Circular next x xs) (hstop : stop ∈ x :: xs) (hfirst : FirstFit next fits stop p) :
    p ∈ x :: xs := by
  obtain ⟨as, hchain, -, -⟩ := hfirst
  induction as generalizing stop with
  | nil =>
    rw [← (List.isChain_cons_cons.mp hchain).1]
    exact h.next_mem hstop
  | cons a as ih =>
    obtain ⟨hnext, htail⟩ := List.isChain_cons_cons.mp hchain
    exact ih (hnext ▸ h.next_mem hstop) htail

section Search

variable [DecidableEq α]

theorem search_eq_walk (next : α → α) (fits : α → Bool) (stop : α) (n : ℕ) (q : α) :
    search next fits stop n q (next q) =
      (walk next (fun a => fits (next a) || decide (next a = stop)) n q).map
        (fun w => if fits (next w) then some (w, next w) else none) := by
  induction n generalizing q with
  | zero => rfl
  | succ n ih =>
    rw [search, walk]
    by_cases hf : fits (next q) = true
    · simp [hf]
    · by_cases hs : next q = stop
      · rw [if_neg hf, if_pos hs, if_pos (by simp [hs]), Option.map_some, if_neg hf]
      · simp [hf, hs, ih]

theorem Circular.search {next : α → α} {fits : α → Bool} {x stop : α} {xs : List α} {n : ℕ}
    (h : Circular next x xs) (hnd : (x :: xs).Nodup) (hstop : stop ∈ x :: xs) (hn : xs.length < n) :
    ((∀ a ∈ x :: xs, fits a = false) ∧
        search next fits stop n stop (next stop) = some none) ∨
      ∃ w ∈ x :: xs, FirstFit next fits stop (next w) ∧
        search next fits stop n stop (next stop) = some (some (w, next w)) := by
  obtain ⟨ys, hring, hperm⟩ := h.rotate_to hstop
  have hlen : ys.length = xs.length := by simpa using hperm.length_eq
  have hfresh : stop ∉ ys := (List.nodup_cons.mp (hperm.nodup_iff.mpr hnd)).1
  -- the last node leads back to `stop`, so the walk ends there at the latest
  obtain ⟨z, hz, hzs⟩ := exists_pred hring (c := stop) (by simp)
  rw [← List.cons_append, List.dropLast_concat] at hz
  obtain ⟨as, w, bs, he, hw, has, hwalk⟩ := walk_chain (n := n)
    (fun a => fits (next a) || decide (next a = stop)) hring.chain hz (by simp [hzs]) (by omega)
  have hmem : w ∈ x :: xs := hperm.mem_iff.mp (by rw [he]; simp)
  have hchain : List.IsChain (fun a b => next a = b) ((as ++ [w]) ++ (bs ++ [stop])) := by
    rw [Circular, ← List.cons_append, he] at hring
    simpa using hring
  obtain ⟨cs, hcs⟩ : ∃ cs, as ++ [w] = stop :: cs := by
    cases as with
    | nil => exact ⟨[], by rw [(List.cons.inj he).1]; rfl⟩
    | cons a as => exact ⟨as ++ [w], by rw [(List.cons.inj he).1]; rfl⟩
  have hvisited : List.IsChain (fun a b => next a = b) (stop :: cs) := hcs ▸ hchain.left_of_append
  have hdrop : (stop :: cs).dropLast = as := by rw [← hcs, List.dropLast_concat]
  have hpassed : ∀ c ∈ cs, c ≠ stop ∧ fits c = false := by
    intro c hc
    obtain ⟨b, hb, rfl⟩ := exists_pred hvisited hc
    have hno := has b (hdrop ▸ hb)
    simp only [Bool.or_eq_false_iff, decide_eq_false_iff_not] at hno
    exact ⟨hno.2, hno.1⟩
  rw [search_eq_walk, hwalk]
  by_cases hf : fits (next w) = true
  · refine .inr ⟨w, hmem, ⟨cs, ?_, hpassed, hf⟩, by simp [hf]⟩
    rw [← List.cons_append, ← hcs, List.append_assoc, List.singleton_append,
      List.isChain_append_cons_cons]
    exact ⟨hcs ▸ hvisited, rfl, List.isChain_singleton _⟩
  · refine .inl ⟨?_, by simp [hf]⟩
    have hws : next w = stop := by simpa [hf] using hw
    -- the node after `w` is `stop`, so nothing is left to visit
    have hys : ys = cs := by
      cases bs with
      | nil => exact (List.cons.inj (he.trans hcs)).2
      | cons b bs =>
        rw [List.append_assoc, List.singleton_append, List.cons_append] at hchain
        have hb : stop = b := hws ▸ (List.isChain_append_cons_cons.mp hchain).2.1
        refine absurd ?_ hfresh
        cases as with
        | nil => rw [(List.cons.inj he).2, hb]; simp
        | cons a as => rw [(List.cons.inj he).2, hb]; simp
    intro a ha
    rcases List.mem_cons.mp (hperm.mem_iff.mpr ha) with rfl | ha
    · simpa [hws] using hf
    · exact (hpassed a (hys ▸ ha)).2

end Search

theorem ring_of_chain [DecidableEq α] {next : α → α} {x p : α} {xs : List α} {n : ℕ}
    (h : List.IsChain (fun a b => next a = b) (p :: (xs ++ [x]))) (hx : x ∉ xs) (hn : xs.length < n) :
    ring next x n p = some xs := by
  induction xs generalizing p n with
  | nil =>
    obtain ⟨n, rfl⟩ : ∃ k, n = k + 1 := ⟨n - 1, by rw [List.length_nil] at hn; omega⟩
    rw [ring, if_pos (List.isChain_cons_cons.mp h).1]
  | cons y xs ih =>
    obtain ⟨n, rfl⟩ : ∃ k, n = k + 1 := ⟨n - 1, by omega⟩
    obtain ⟨hy, htail⟩ := List.isChain_cons_cons.mp h
    rw [List.mem_cons, not_or] at hx
    have hrest := ih htail hx.2 (by simpa using hn)
    rw [ring, hy, if_neg (Ne.symm hx.1), hrest, Option.map_some]

theorem Circular.ring_eq [DecidableEq α] {next : α → α} {x : α} {xs : List α} {n : ℕ}
    (h : Circular next x xs) (hx : x ∉ xs) (hn : xs.length < n) : ring next x n x = some xs :=
  ring_of_chain h hx hn

end Library.Rings
