import MinOS.ThreadCreation

namespace MinOS.Kernel

/-- The kernel before its first thread: zeroed globals and an empty heap. Of `m` only what nothing
initialises is left. -/
def initKernel (m : Kernel) (kheapStart : ℕ) : Kernel where
  tasks := (Tasks.staticTasks m.tasks.before m.tasks.obj).threadsInit
  heap := initKheap { m.heap with freep := m.heap.base } kheapStart
  semtable sem := if isbadsem sem then m.semtable sem else ⟨sFree, 0, ⟨0, 0, fun _ => 0⟩⟩
  sids := m.sids
  pipes := m.pipes
  threadExec := m.threadExec

def boot (m : Kernel) (kheapStart : ℕ) (init : ThreadFunc) : Option Kernel :=
  ((m.initKernel kheapStart).createThread init).map Prod.snd

def zeroKernel : Kernel where
  tasks := Tasks.staticTasks (.at 0) (fun _ => emptyThread)
  heap := ⟨fun _ => ⟨0, 0⟩, 0x1000, 0, 0x1000⟩
  semtable _ := ⟨sFree, 0, ⟨0, 0, fun _ => 0⟩⟩
  sids _ := 0
  pipes _ := ⟨0, .empty⟩
  threadExec := 0

variable {m : Kernel} {kheapStart : ℕ} {init : ThreadFunc}

theorem initKernel_dead (m : Kernel) (kheapStart i : ℕ) : ¬ (m.initKernel kheapStart).tasks.Live i := by
  rintro ⟨hi, hl⟩
  exact hl (by simp [initKernel, Tasks.thread, Tasks.threadsInit, Tasks.staticTasks, hi, emptyThread])

theorem initKernel_stocked (hal : kheapStart % blkSize = 0) (hbase : m.heap.base < kheapStart) :
    (m.initKernel kheapStart).Stocked := by
  have hglobal : (m.initKernel kheapStart).tasks.tidGlobal = 0 := rfl
  refine ⟨.init _ _, le_refl _, ?_, fun i hi => ?_, fun i hi _ => if_pos hi, _, [],
    WellFormed.init hal hbase rfl, fun i hi => absurd hi (initKernel_dead m kheapStart i), fun _ => ?_⟩
  · rw [hglobal]
    decide
  · rw [hglobal]
    exact ⟨fun h => absurd h (initKernel_dead m kheapStart i), fun h => absurd h (by omega)⟩
  · rw [hglobal]
    exact ⟨_, List.mem_singleton_self _, show _ ≤ heapSize / blkSize by decide⟩

end MinOS.Kernel
