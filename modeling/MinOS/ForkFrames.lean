import MinOS.ChildArrays

namespace MinOS

inductive ForkLocal where
  | tid
  | t
  | ctid
  | retval
  deriving DecidableEq

/-- What `fork_thread` keeps in its frame behind `switch_fork`: its locals and the value to return.
The frame lies on the stack of the thread that called `fork_thread`; the child uses it too, since it
comes out of `switch_fork` with the same `rbp`. -/
structure ForkFrame where
  tid : ℤ
  t : ThreadPtr
  ctid : ℤ
  retval : ℤ

/-- Where a thread stands behind `switch_fork`. A value that has been computed and not been stored
yet is in a register of the thread. -/
inductive ForkPoint where
  | begun
  | gotTid (tid : ℤ)
  | hasTid
  | gotPtr (t : ThreadPtr)
  | hasPtr
  | isChild
  | tested
  | gotCtid (ctid : ℤ)
  | hasCtid
  | gotResult (value : ℤ)
  | returning
  deriving DecidableEq

namespace ForkPoint

/-- The rest of `fork_thread`, one access to its frame at a time. -/
def next (s : Tasks) (f : ForkFrame) : ForkPoint → Option (ForkPoint × ForkFrame)
  | begun => s.getCurThreadTid.map (fun tid => (gotTid tid, f))
  | gotTid tid => some (hasTid, { f with tid := tid })
  | hasTid => some (gotPtr (s.getThreadPtr f.tid), f)
  | gotPtr t => some (hasPtr, { f with t := t })
  | hasPtr => some (if findCtid (s.obj f.t) = -1 then isChild else tested, f)
  | isChild => some (returning, { f with retval := -1 })
  | tested => some (gotCtid (findCtid (s.obj f.t)), f)
  | gotCtid ctid => some (hasCtid, { f with ctid := ctid })
  | hasCtid => some (gotResult f.ctid, f)
  | gotResult value => some (returning, { f with retval := value })
  | returning => none

def stores : ForkPoint → Option ForkLocal
  | gotTid _ => some .tid
  | gotPtr _ => some .t
  | isChild => some .retval
  | gotCtid _ => some .ctid
  | gotResult _ => some .retval
  | _ => none

def loads : ForkPoint → Option ForkLocal
  | hasTid => some .tid
  | hasPtr => some .t
  | tested => some .t
  | hasCtid => some .ctid
  | returning => some .retval
  | _ => none

def Right (f : ForkFrame) (p : ThreadPtr) (tid value : ℤ) : ForkPoint → Prop
  | begun => True
  | gotTid v => v = tid
  | hasTid => f.tid = tid
  | gotPtr t => t = p
  | hasPtr => f.t = p
  | isChild => value = -1
  | tested => f.t = p
  | gotCtid v => v = value
  | hasCtid => f.ctid = value
  | gotResult v => v = value
  | returning => f.retval = value

def left : ForkPoint → ℕ
  | begun => 9
  | gotTid _ => 8
  | hasTid => 7
  | gotPtr _ => 6
  | hasPtr => 5
  | isChild => 1
  | tested => 4
  | gotCtid _ => 3
  | hasCtid => 2
  | gotResult _ => 1
  | returning => 0

variable {s : Tasks} {f f' : ForkFrame} {p p' : ThreadPtr} {tid tid' value value' : ℤ}
  {point point' other : ForkPoint}

theorem Right.next (h : point.Right f p tid value) (htid : s.getCurThreadTid = some tid)
    (hptr : s.getThreadPtr tid = p) (hfind : findCtid (s.obj p) = value)
    (hnext : point.next s f = some (point', f')) : point'.Right f' p tid value := by
  cases point with
  | begun =>
    rw [ForkPoint.next, htid] at hnext
    obtain ⟨rfl, rfl⟩ := Prod.mk.inj (Option.some.inj hnext)
    rfl
  | hasPtr =>
    obtain ⟨rfl, rfl⟩ := Prod.mk.inj (Option.some.inj hnext)
    rw [show f.t = p from h, hfind]
    split_ifs with hchild
    · exact hchild
    · exact h
  | hasTid =>
    obtain ⟨rfl, rfl⟩ := Prod.mk.inj (Option.some.inj hnext)
    rw [show f.tid = tid from h]
    exact hptr
  | tested =>
    obtain ⟨rfl, rfl⟩ := Prod.mk.inj (Option.some.inj hnext)
    rw [show f.t = p from h]
    exact hfind
  | isChild =>
    obtain ⟨rfl, rfl⟩ := Prod.mk.inj (Option.some.inj hnext)
    exact Eq.symm h
  | returning => cases hnext
  | _ =>
    obtain ⟨rfl, rfl⟩ := Prod.mk.inj (Option.some.inj hnext)
    exact h

theorem Right.frame (h : other.Right f p tid value) (hnext : point.next s f = some (point', f'))
    (hapart : ∀ l, point.stores = some l → other.loads ≠ some l) : other.Right f' p tid value := by
  cases point with
  | begun =>
    obtain ⟨_, -, he⟩ := Option.map_eq_some_iff.mp hnext
    obtain ⟨-, rfl⟩ := Prod.mk.inj he
    exact h
  | returning => cases hnext
  | _ =>
    obtain ⟨-, rfl⟩ := Prod.mk.inj (Option.some.inj hnext)
    cases other with
    | _ => first
      | exact h
      | exact absurd rfl (hapart _ rfl)

theorem left_next (hnext : point.next s f = some (point', f')) : point'.left < point.left := by
  cases point with
  | begun =>
    obtain ⟨_, -, he⟩ := Option.map_eq_some_iff.mp hnext
    obtain ⟨rfl, -⟩ := Prod.mk.inj he
    simp [left]
  | hasPtr =>
    obtain ⟨rfl, -⟩ := Prod.mk.inj (Option.some.inj hnext)
    split_ifs
    · decide
    · decide
  | returning => cases hnext
  | _ =>
    obtain ⟨rfl, -⟩ := Prod.mk.inj (Option.some.inj hnext)
    simp [left]

theorem next_eq_none (hcur : s.getCurThreadTid = some tid) (hnext : point.next s f = none) :
    point = returning := by
  cases point with
  | begun =>
    rw [ForkPoint.next, hcur] at hnext
    cases hnext
  | returning => rfl
  | _ => cases hnext

end ForkPoint

end MinOS
