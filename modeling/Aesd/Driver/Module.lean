import Aesd.Driver.Ownership
import Aesd.Lib.Trace

/-!
# The life of the module (`aesd-char-driver/main.c`)

The module is loaded and unloaded, files are opened on its device, used and released, in any order
that the kernel allows: it loads a module that is not loaded, opens a file on a device that is
registered, and unloads no module while a file is open (`.owner = THIS_MODULE`). What the driver has
to keep is the kernel's part: the region of device numbers, the registered device, and the memory.

* `Kernel.aesdInitModule`, `Kernel.aesdCleanupModule` — loading, with its two ways to fail, and
  unloading;
* `module_life` — no region is left behind or given back twice, whatever fails; every load starts
  with an empty device; and what an unload leaves in memory is the buffer of the pending bytes.
-/

namespace Aesd.Driver

open Aesd.Lib

/-! ### Loading and unloading -/

/-- The kernel's answers while the module is loaded: the major number that `alloc_chrdev_region`
has found, or its error, and what `cdev_add` returns.
Source: `main.c`, `aesd_init_module` and `aesd_cleanup_module`
Kind: D -/
structure LoadEnv where
  alloc : Except ℤ ℕ
  cdevAdd : ℤ

/-- What the kernel keeps for the module.
Source: `main.c`, `aesd_init_module` and `aesd_cleanup_module`
Kind: D -/
structure Kernel where
  /-- The major numbers of the regions registered as `aesdchar`. -/
  regions : List ℕ
  /-- The major number at which the device is registered. -/
  cdev : Option ℕ
  /-- `aesd_major` and the device, while the module is loaded. -/
  loaded : Option (ℕ × DriverState)
  /-- The files open on the device. -/
  files : List ℕ
  /-- The memory after each unload. -/
  left : List (Heap UInt8)

/-- Before the first load.
Source: `main.c`, `aesd_init_module` and `aesd_cleanup_module`
Kind: D -/
def Kernel.start : Kernel := ⟨[], none, none, [], []⟩

/-- Make the device known to the kernel.
Source: `main.c`, `aesd_setup_cdev`
Kind: D -/
def Kernel.aesdSetupCdev (k : Kernel) (aesdMajor : ℕ) (err : ℤ) : ℤ × Kernel :=
  if err = 0 then (0, { k with cdev := some aesdMajor }) else (err, k)

/-- Load the module: a device number, the device, and the number given back when the device fails.
Source: `main.c`, `aesd_init_module`
Kind: D -/
def Kernel.aesdInitModule (k : Kernel) (env : LoadEnv) : ℤ × Kernel :=
  match env.alloc with
  | .error result => (result, k)
  | .ok aesdMajor =>
      let r := Kernel.aesdSetupCdev { k with regions := aesdMajor :: k.regions } aesdMajor env.cdevAdd
      if r.1 ≠ 0 then (r.1, { r.2 with regions := r.2.regions.erase aesdMajor })
      else (r.1, { r.2 with loaded := some (aesdMajor, .init) })

/-- Unload the module.
Source: `main.c`, `aesd_cleanup_module`
Kind: D -/
def Kernel.aesdCleanupModule (k : Kernel) (aesdMajor : ℕ) (s : DriverState) : Kernel :=
  { k with
    cdev := none
    regions := k.regions.erase aesdMajor
    loaded := none
    left := k.left ++ [Driver.aesdCleanupModule s.dev] }

/-- The file that a call is made on.
Source: `main.c`, the file operations
Kind: D -/
def DriverOp.file : DriverOp → ℕ
  | .openFile file | .write file _ _ | .read file _ _ | .ioctl file _ _ | .llseek file _ _ _ => file

/-- A load, an unload, an `open`, a call on an open file, or its last `close`.
Source: `main.c`, `aesd_init_module` and `aesd_cleanup_module`
Kind: D -/
inductive ModuleStep where
  | insmod (env : LoadEnv)
  | rmmod
  | openFile (file : ℕ)
  | call (op : DriverOp)
  | release (file : ℕ)

/-- What the kernel does; `none` when it refuses. `alloc_chrdev_region` finds a number that is
free.
Source: `main.c`, `aesd_fops`, `aesd_open`, `aesd_release`, `module_init` and `module_exit`
Kind: D -/
def Kernel.step (K : KernelLimits) (k : Kernel) : ModuleStep → Option Kernel
  | .insmod env =>
      if k.loaded = none ∧ (∀ aesdMajor ∈ k.regions, env.alloc.toOption ≠ some aesdMajor) then
        some (k.aesdInitModule env).2
      else none
  | .rmmod => k.loaded.bind fun m =>
      if k.files = [] then some (k.aesdCleanupModule m.1 m.2) else none
  | .openFile file => k.loaded.bind fun m =>
      if k.cdev = some m.1 ∧ file ∉ k.files then
        some { k with files := file :: k.files, loaded := some (m.1, m.2.exec K (.openFile file)) }
      else none
  | .call op => k.loaded.bind fun m =>
      if op.file ∈ k.files then some { k with loaded := some (m.1, m.2.exec K op) } else none
  | .release file =>
      if file ∈ k.files then some { k with files := k.files.erase file } else none

/-- The kernel after the steps, from before the first load.
Source: `main.c`, `aesd_init_module` and `aesd_cleanup_module`
Kind: D -/
def moduleRun (K : KernelLimits) (steps : List ModuleStep) : Option Kernel :=
  run (Kernel.step K) .start steps

/-! ### What every order of steps keeps -/

/-- What a step adds to the calls of the loads that have ended and to those since the last load.
Source: `main.c`, `aesd_init_module` and `aesd_cleanup_module`
Kind: D -/
def sessionStep (r : List (List DriverOp) × List DriverOp) :
    ModuleStep → List (List DriverOp) × List DriverOp
  | .insmod _ => (r.1, [])
  | .rmmod => (r.1 ++ [r.2], [])
  | .openFile file => (r.1, r.2 ++ [.openFile file])
  | .call op => (r.1, r.2 ++ [op])
  | .release _ => r

/-- The calls of the loads that have ended, each by itself, and those since the last load.
Source: `main.c`, `aesd_init_module` and `aesd_cleanup_module`
Kind: D -/
def sessions (steps : List ModuleStep) : List (List DriverOp) × List DriverOp :=
  steps.foldl sessionStep ([], [])

/-- The kernel keeps for the module what it needs while it is loaded, and nothing else.
Source: `main.c`, `aesd_init_module` and `aesd_cleanup_module`
Kind: D -/
structure Kernel.Kept (K : KernelLimits) (r : List (List DriverOp) × List DriverOp) (k : Kernel) :
    Prop where
  regions : k.regions = (k.loaded.map Prod.fst).toList
  cdev : k.cdev = k.loaded.map Prod.fst
  files : k.loaded = none → k.files = []
  device : ∀ m, k.loaded = some m → m.2 = driverRun K r.2
  left : k.left = r.1.map fun ops => Driver.aesdCleanupModule (driverRun K ops).dev

section life

variable {K : KernelLimits} {k k' : Kernel} {r : List (List DriverOp) × List DriverOp}
  {t : ModuleStep} {steps : List ModuleStep}

/-- A load that fails leaves the kernel as it was; one that succeeds registers one region and one
device.
Source: `main.c`, `aesd_init_module`
Kind: L -/
theorem Kernel.Kept.insmod {env : LoadEnv} (hk : k.Kept K r) (hnone : k.loaded = none) :
    (k.aesdInitModule env).2.Kept K (r.1, []) := by
  have hregions := hk.regions
  have hcdev := hk.cdev
  rw [hnone] at hregions hcdev
  unfold Kernel.aesdInitModule
  split
  · exact ⟨hk.regions, hk.cdev, hk.files, by simp [hnone], hk.left⟩
  · rename_i aesdMajor _
    by_cases herr : env.cdevAdd = 0
    · simp only [Kernel.aesdSetupCdev, herr, if_true, ne_eq, not_true_eq_false, if_false]
      refine ⟨?_, rfl, by simp, ?_, hk.left⟩
      · rw [hregions]
        rfl
      · rintro m ⟨⟩
        rfl
    · simp only [Kernel.aesdSetupCdev, herr, if_false, ne_eq, not_false_eq_true, if_true]
      refine ⟨?_, hk.cdev, hk.files, by simp [hnone], hk.left⟩
      rw [List.erase_cons_head]
      exact hk.regions

/-- Unloading the module ends a session, and leaves its pending bytes behind.
Source: `main.c`, `aesd_cleanup_module`
Kind: L -/
theorem Kernel.Kept.rmmod {m : ℕ × DriverState} (hk : k.Kept K r) (hm : k.loaded = some m)
    (hfiles : k.files = []) : (k.aesdCleanupModule m.1 m.2).Kept K (r.1 ++ [r.2], []) := by
  refine ⟨?_, rfl, fun _ => hfiles, by rintro m ⟨⟩, ?_⟩
  · have hregions := hk.regions
    rw [hm] at hregions
    simp [Kernel.aesdCleanupModule, hregions]
  · simp [Kernel.aesdCleanupModule, hk.left, hk.device m hm]

/-- A call of the driver while the module is loaded.
Source: `main.c`, `aesd_init_module` and `aesd_cleanup_module`
Kind: L -/
theorem Kernel.Kept.exec {m : ℕ × DriverState} {op : DriverOp} {files : List ℕ} (hk : k.Kept K r)
    (hm : k.loaded = some m) :
    Kernel.Kept K (r.1, r.2 ++ [op])
      { k with files := files, loaded := some (m.1, m.2.exec K op) } := by
  have hregions := hk.regions
  have hcdev := hk.cdev
  rw [hm] at hregions hcdev
  refine ⟨hregions, hcdev, by simp, ?_, hk.left⟩
  rintro m' ⟨⟩
  rw [driverRun_append_singleton, ← hk.device m hm]

/-- Every step of the kernel keeps the sessions apart.
Source: `main.c`, `aesd_init_module` and `aesd_cleanup_module`
Kind: L -/
theorem Kernel.Kept.step (hk : k.Kept K r) (hstep : k.step K t = some k') :
    k'.Kept K (sessionStep r t) := by
  cases t with
  | insmod env =>
      rw [Kernel.step, Option.ite_none_right_eq_some] at hstep
      cases hstep.2
      exact hk.insmod hstep.1.1
  | rmmod =>
      obtain ⟨m, hm, hrest⟩ := Option.bind_eq_some_iff.mp hstep
      rw [Option.ite_none_right_eq_some] at hrest
      cases hrest.2
      exact hk.rmmod hm hrest.1
  | openFile file =>
      obtain ⟨m, hm, hrest⟩ := Option.bind_eq_some_iff.mp hstep
      rw [Option.ite_none_right_eq_some] at hrest
      cases hrest.2
      exact hk.exec hm
  | call op =>
      obtain ⟨m, hm, hrest⟩ := Option.bind_eq_some_iff.mp hstep
      rw [Option.ite_none_right_eq_some] at hrest
      cases hrest.2
      exact hk.exec hm
  | release file =>
      rw [Kernel.step, Option.ite_none_right_eq_some] at hstep
      cases hstep.2
      refine ⟨hk.regions, hk.cdev, fun hnone => ?_, hk.device, hk.left⟩
      change k.files.erase file = []
      rw [hk.files hnone, List.erase_nil]

/-- The sessions are kept apart in every run.
Source: `main.c`, `aesd_init_module` and `aesd_cleanup_module`
Kind: L -/
theorem kept_of_moduleRun (hrun : moduleRun K steps = some k) : k.Kept K (sessions steps) := by
  refine run_induction (P := fun steps k => k.Kept K (sessions steps)) ?_ ?_ hrun
  · exact ⟨rfl, rfl, fun _ => rfl, by simp [Kernel.start], rfl⟩
  · intro steps k t k' _ hk hstep
    rw [sessions, List.foldl_append]
    exact hk.step hstep

/-- **The life of the module.** In every order of loads, whatever fails in them, unloads, opens,
calls and releases: the one region of device numbers that is registered is that of the loaded
module, and so is the device; no file is open without the module; the device is what the calls since
the load make of an empty one; and the memory that an unload leaves behind is the buffer of the
bytes that were pending, and nothing else, each other buffer having been released once.
Source: `main.c`, `aesd_init_module`, `aesd_setup_cdev`, `aesd_cleanup_module`, `aesd_open`,
`aesd_release`
Kind: P -/
theorem module_life (hrun : moduleRun K steps = some k) :
    k.regions = (k.loaded.map Prod.fst).toList ∧ k.cdev = k.loaded.map Prod.fst ∧
    (k.loaded = none → k.files = []) ∧
    (∀ m, k.loaded = some m → m.2 = driverRun K (sessions steps).2) ∧
    List.Forall₂ (fun (heap : Heap UInt8) ops => ∀ id < heap.next,
      if (driverRun K ops).dev.currentWriteEntry.buffptr = .block id then
        (heap.block id).isSome = true ∧ heap.freed.count id = 0
      else heap.block id = none ∧ heap.freed.count id = 1) k.left (sessions steps).1 := by
  have hk := kept_of_moduleRun hrun
  refine ⟨hk.regions, hk.cdev, hk.files, hk.device, ?_⟩
  rw [hk.left, List.forall₂_map_left_iff, List.forall₂_same]
  intro ops _ id hid
  have howned := (represents_driverRun K ops).owned_cleanup
  have hlive := howned.live_iff id
  rw [Ptr.mem_ids, List.mem_singleton] at hlive
  have hcount := howned.freed_count id
  split_ifs with hptr
  · have hsome := hlive.mpr hptr.symm
    refine ⟨hsome, ?_⟩
    rw [hcount, if_neg]
    rintro ⟨-, hnone⟩
    rw [Option.isNone_iff_eq_none.mp hnone] at hsome
    cases hsome
  · have hnone : (Driver.aesdCleanupModule (driverRun K ops).dev).block id = none := by
      rw [← Option.not_isSome_iff_eq_none, hlive]
      exact Ne.symm hptr
    refine ⟨hnone, ?_⟩
    rw [hcount, if_pos]
    exact ⟨hid, by simp [hnone]⟩

/-- A load that fails behind its region, a load with a byte written and no newline, and a load of
the number that the first one had got.
Source: `main.c`, `aesd_init_module` and `aesd_cleanup_module`
Kind: D -/
def reload : List ModuleStep :=
  [.insmod ⟨.ok 240, -12⟩, .insmod ⟨.ok 241, 0⟩, .openFile 0, .call (.write 0 .undisturbed [97]),
    .release 0, .rmmod, .insmod ⟨.ok 240, 0⟩]

/-- A module that is loaded again starts with an empty device, and the pending bytes of the
session before are left behind.
Source: `main.c`, `aesd_init_module` and `aesd_cleanup_module`
Kind: N+ -/
theorem module_life_reload :
    ∃ k, moduleRun .pages4K reload = some k ∧ k.regions = [240] ∧ k.left.length = 1 ∧
      ∀ m, k.loaded = some m → m.2.dev.content = [] := by
  obtain ⟨k, hk, hend⟩ := Option.map_eq_some_iff.mp
    (show (moduleRun .pages4K reload).map (fun k => k.loaded.map Prod.fst) = some (some 240) by
      decide +kernel)
  obtain ⟨hregions, -, -, hdevice, hleft⟩ := module_life hk
  refine ⟨k, hk, ?_, hleft.length_eq, fun m hm => ?_⟩
  · rw [hregions, hend]
    rfl
  · rw [hdevice m hm]
    decide +kernel

end life

end Aesd.Driver
