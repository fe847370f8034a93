import KmsCluster.Lib.Inodes
import KmsCluster.Lib.Runs
import KmsCluster.SealRoundTrip

/-!
# The share on the durable volume

Model of `store_share` and `try_reload_sealed` (`src/init.rs`) together with `write_blob_file`
(`src/seal.rs`), call by call on the disk: the temporary file is opened and emptied, written in
pieces and renamed. Several calls of `store_share` may be under way, a call on files may fail, and
the process may be killed at any point and boot again on the same volume. What was written before
a kill stays; a loss of power is not modelled. The baseline that `store_share` checks is in other
files (`Baseline`), and is left out, as are log lines and counters.

## Main results

- `step_cases`: what one step can do.
- `persisted_whole`: the file is the blob persisted last, as a whole, while persists do not overlap.
- `restart_restores`: what a restart brings back of the share that was served.
- `overlap_truncates`: two persists that overlap can leave an empty file.
-/

namespace KmsCluster.DurableShare

open Inodes Runs Seal

/-- What `store_share` is called with. -/
structure Share where
  shardIndex : UInt32
  epoch : UInt64
  bytes : ByteVec
  groupPubkey : ByteVec

def Share.record (share : Share) : SealedShareV1 :=
  .new share.shardIndex share.epoch share.groupPubkey share.bytes

def Share.shard (share : Share) : ShardState :=
  ⟨share.shardIndex.toNat, share.bytes, share.epoch.toNat⟩

/-- What a node is started with. The files of `sources` are those of the disk. -/
structure Setup where
  config : Config
  ethAddress : Address
  sources : Sources
  lib : SealLib
  ownPrivkey : Bytes
  ownPubkey : Bytes

/-- The sources of a boot on a disk; `failure` is the error of a read that fails. -/
def Setup.onDisk (setup : Setup) (disk : Disk String UInt8) (failure : Option String) : Sources :=
  { setup.sources with file := readToString disk.read failure }

/-- Where a call of `store_share` stands. -/
inductive Pc where
  | sealing
  -- write_blob_file
  | creating (b64 : String)
  | writing (b64 : String) (inode written : ℕ)
  | replacing (b64 : String)
  | storeKey
  | storeShard

/-- The temporary file is in use. -/
def Pc.persisting : Pc → Bool
  | .writing _ _ _ | .replacing _ => true
  | _ => false

/-- The file is done with. -/
def Pc.storing : Pc → Bool
  | .storeKey | .storeShard => true
  | _ => false

structure Task where
  share : Share
  pc : Pc

/-- A node and its volume, with what became of the shares it stored: those whose blob was renamed
    to the path, the last one first, and those whose blob was not. -/
structure State where
  disk : Disk String UInt8
  st : AppState
  booting : Bool
  tasks : ℕ → Option Task
  persisted : List (Share × String)
  unpersisted : List Share

inductive Action where
  | store (share : Share)
  | seal (randomness : Bytes)
  | create
  /-- The disk takes the next `n` bytes, or all that are left. -/
  | write (n : ℕ)
  | next
  /-- The call returns an error. -/
  | fail
  | gossip (table : PeerTable)
  | reload (failure : Option String)
  | crash

def State.init (setup : Setup) (disk : Disk String UInt8) : State where
  disk := disk
  st := AppState.new setup.config setup.ethAddress
  booting := true
  tasks _ := none
  persisted := []
  unpersisted := []

def State.goto (s : State) (id : ℕ) (t : Task) (pc : Pc) : State :=
  { s with tasks := Function.update s.tasks id (some { t with pc := pc }) }

/-- The blob was not persisted; the share is stored all the same. -/
def State.giveUp (s : State) (id : ℕ) (t : Task) : State :=
  { s with unpersisted := t.share :: s.unpersisted }.goto id t .storeKey

def State.ended (s : State) (id : ℕ) : State :=
  { s with tasks := Function.update s.tasks id none }

def State.crashed (setup : Setup) (s : State) : State :=
  { s with
    st := AppState.new setup.config setup.ethAddress
    booting := true
    tasks := fun _ => none }

def State.reloaded (setup : Setup) (s : State) (failure : Option String) : State :=
  { s with
    st := (tryReloadSealed (setup.lib.ops setup.ownPrivkey) (setup.onDisk s.disk failure) s.st).1
    booting := false }

/-- The share is sealed, and goes to the file if there is a durable path. -/
def State.seal (setup : Setup) (s : State) (id : ℕ) (t : Task) (b64 : String) : State :=
  let sealed := { s with st := { s.st with sealedShare := some b64 } }
  if (sealedSharePath setup.sources).isSome then sealed.goto id t (.creating b64)
  else sealed.giveUp id t

def State.persist (s : State) (id : ℕ) (t : Task) (b64 : String) (disk : Disk String UInt8) :
    State :=
  { s with disk := disk, persisted := (t.share, b64) :: s.persisted }.goto id t .storeKey

/-- One step of a call of `store_share`. -/
def taskStep (setup : Setup) (s : State) (id : ℕ) (t : Task) : Pc → Action → Option State
  | .sealing, .seal randomness =>
    match sealB64 setup.lib randomness setup.ownPubkey t.share.record with
    | .ok b64 => some (s.seal setup id t b64)
    | .error _ => some (s.giveUp id t)
  | .creating b64, .create =>
    (sealedSharePath setup.sources).map fun path =>
      let (disk, inode) := s.disk.create (tmpPath path)
      { s with disk := disk }.goto id t (.writing b64 inode 0)
  | .writing b64 inode written, .write n =>
    let chunk := ((utf8 b64).drop written).take n
    if chunk = [] then none
    else some ({ s with disk := s.disk.writeAt 0 inode written chunk }.goto id t
      (.writing b64 inode (written + chunk.length)))
  | .writing b64 _ written, .next =>
    if written = (utf8 b64).length then some (s.goto id t (.replacing b64)) else none
  | .replacing b64, .next =>
    (sealedSharePath setup.sources).map fun path =>
      match s.disk.rename (tmpPath path) path with
      | some disk => s.persist id t b64 disk
      | none => s.giveUp id t
  | .storeKey, .next =>
    some ({ s with st := { s.st with groupPubkey := some t.share.groupPubkey } }.goto id t
      .storeShard)
  | .storeShard, .next =>
    some ({ s with st := { s.st with shard := some t.share.shard } }.ended id)
  | .sealing, .fail | .creating _, .fail | .writing _ _ _, .fail | .replacing _, .fail =>
    some (s.giveUp id t)
  | _, _ => none

def step (setup : Setup) (s : State) (l : ℕ × Action) : Option State :=
  match l.2, s.tasks l.1 with
  | .crash, _ => some (s.crashed setup)
  | .gossip table, _ => some { s with st := { s.st with peerTable := table } }
  | .reload failure, _ => if s.booting then some (s.reloaded setup failure) else none
  | .store share, none =>
    if s.booting then none
    else some { s with tasks := Function.update s.tasks l.1 (some ⟨share, .sealing⟩) }
  | action, some t => taskStep setup s l.1 t t.pc action
  | _, none => none

-- ════════════════════════════════════════════════════════════════════════
-- What one step can do
-- ════════════════════════════════════════════════════════════════════════

/-- The steps of a node with the durable path `path`, with their guards. -/
inductive Moves (setup : Setup) (path : String) (s : State) : ℕ × Action → State → Prop
  | crash {id : ℕ} : Moves setup path s (id, .crash) (s.crashed setup)
  | gossip {id : ℕ} {table : PeerTable} :
      Moves setup path s (id, .gossip table) { s with st := { s.st with peerTable := table } }
  | reload {id : ℕ} {failure : Option String} :
      Moves setup path s (id, .reload failure) (s.reloaded setup failure)
  | store {id : ℕ} {share : Share} (hfree : s.tasks id = none) :
      Moves setup path s (id, .store share)
        { s with tasks := Function.update s.tasks id (some ⟨share, .sealing⟩) }
  | sealed {id : ℕ} {t : Task} {randomness : Bytes} {b64 : String} (ht : s.tasks id = some t)
      (hpc : t.pc = .sealing)
      (hseal : sealB64 setup.lib randomness setup.ownPubkey t.share.record = .ok b64) :
      Moves setup path s (id, .seal randomness)
        ({ s with st := { s.st with sealedShare := some b64 } }.goto id t (.creating b64))
  | created {id : ℕ} {t : Task} {b64 : String} (ht : s.tasks id = some t)
      (hpc : t.pc = .creating b64) :
      Moves setup path s (id, .create)
        ({ s with disk := (s.disk.create (tmpPath path)).1 }.goto id t
          (.writing b64 (s.disk.create (tmpPath path)).2 0))
  | wrote {id n : ℕ} {t : Task} {b64 : String} {inode written : ℕ} {chunk : Bytes}
      (ht : s.tasks id = some t) (hpc : t.pc = .writing b64 inode written)
      (hchunk : chunk <+: (utf8 b64).drop written) :
      Moves setup path s (id, .write n)
        ({ s with disk := s.disk.writeAt 0 inode written chunk }.goto id t
          (.writing b64 inode (written + chunk.length)))
  | closed {id : ℕ} {t : Task} {b64 : String} {inode : ℕ} (ht : s.tasks id = some t)
      (hpc : t.pc = .writing b64 inode (utf8 b64).length) :
      Moves setup path s (id, .next) (s.goto id t (.replacing b64))
  | renamed {id : ℕ} {t : Task} {b64 : String} {disk : Disk String UInt8}
      (ht : s.tasks id = some t) (hpc : t.pc = .replacing b64)
      (hrename : s.disk.rename (tmpPath path) path = some disk) :
      Moves setup path s (id, .next) (s.persist id t b64 disk)
  | gaveUp {id : ℕ} {t : Task} {action : Action} (ht : s.tasks id = some t)
      (hpc : t.pc.storing = false) (hcreate : action ≠ .create) :
      Moves setup path s (id, action) (s.giveUp id t)
  | key {id : ℕ} {t : Task} (ht : s.tasks id = some t) (hpc : t.pc = .storeKey) :
      Moves setup path s (id, .next)
        ({ s with st := { s.st with groupPubkey := some t.share.groupPubkey } }.goto id t
          .storeShard)
  | shard {id : ℕ} {t : Task} (ht : s.tasks id = some t) (hpc : t.pc = .storeShard) :
      Moves setup path s (id, .next)
        ({ s with st := { s.st with shard := some t.share.shard } }.ended id)

variable {setup : Setup} {path : String} {disk₀ : Disk String UInt8} {s s' : State}

theorem taskStep_cases (hpath : sealedSharePath setup.sources = some path) {id : ℕ} {t : Task}
    {action : Action} (ht : s.tasks id = some t)
    (h : taskStep setup s id t t.pc action = some s') : Moves setup path s (id, action) s' := by
  unfold taskStep at h
  split at h
  · next hpc =>
    split at h
    · next b64 hseal =>
      cases h
      rw [State.seal, if_pos (by rw [hpath]; rfl)]
      exact .sealed ht hpc hseal
    · cases h
      exact .gaveUp ht (by rw [hpc]; rfl) nofun
  · next hpc =>
    rw [hpath] at h
    cases h
    exact .created ht hpc
  · next hpc =>
    dsimp only at h
    split at h
    · cases h
    · cases h
      exact .wrote ht hpc (List.take_prefix _ _)
  · next hpc =>
    split at h
    · next hlength =>
      cases h
      subst hlength
      exact .closed ht hpc
    · cases h
  · next hpc =>
    rw [hpath, Option.map_some] at h
    split at h
    · next disk hrename =>
      cases h
      exact .renamed ht hpc hrename
    · cases h
      exact .gaveUp ht (by rw [hpc]; rfl) nofun
  · next hpc =>
    cases h
    exact .key ht hpc
  · next hpc =>
    cases h
    exact .shard ht hpc
  · next hpc =>
    cases h
    exact .gaveUp ht (by rw [hpc]; rfl) nofun
  · next hpc =>
    cases h
    exact .gaveUp ht (by rw [hpc]; rfl) nofun
  · next hpc =>
    cases h
    exact .gaveUp ht (by rw [hpc]; rfl) nofun
  · next hpc =>
    cases h
    exact .gaveUp ht (by rw [hpc]; rfl) nofun
  · cases h

theorem step_cases (hpath : sealedSharePath setup.sources = some path) {l : ℕ × Action}
    (h : step setup s l = some s') : Moves setup path s l s' := by
  obtain ⟨id, action⟩ := l
  unfold step at h
  dsimp only at h
  split at h
  · cases h
    exact .crash
  · cases h
    exact .gossip
  · split at h
    · cases h
      exact .reload
    · cases h
  · next hfree =>
    split at h
    · cases h
    · cases h
      exact .store hfree
  · next t _ _ _ ht => exact taskStep_cases hpath ht h
  · cases h

-- ════════════════════════════════════════════════════════════════════════
-- The file
-- ════════════════════════════════════════════════════════════════════════

/-- The text is what sealing the share gave. -/
def Sealed (setup : Setup) (share : Share) (b64 : String) : Prop :=
  ∃ randomness, sealB64 setup.lib randomness setup.ownPubkey share.record = .ok b64

/-- What a call of `store_share` has at its place. -/
def Pc.Holds (setup : Setup) (path : String) (disk : Disk String UInt8) (share : Share) :
    Pc → Prop
  | .creating b64 => Sealed setup share b64
  | .writing b64 inode written =>
    Sealed setup share b64 ∧ Partial disk (tmpPath path) inode (utf8 b64) written
  | .replacing b64 => Sealed setup share b64 ∧ disk.read (tmpPath path) = some (utf8 b64)
  | _ => True

/-- Only what is in the temporary file depends on the disk. -/
theorem Pc.Holds.of_not_persisting {disk disk' : Disk String UInt8} {share : Share} {pc : Pc}
    (h : pc.Holds setup path disk share) (hpc : pc.persisting = false) :
    pc.Holds setup path disk' share := by
  cases pc with
  | writing b64 inode written => cases hpc
  | replacing b64 => cases hpc
  | _ => exact h

/-- What is at the path: the blob persisted last, or what was there before. -/
def State.fileContent (disk₀ : Disk String UInt8) (path : String) (s : State) : Option Bytes :=
  match s.persisted with
  | [] => disk₀.read path
  | (_, b64) :: _ => some (utf8 b64)

structure Whole (setup : Setup) (path : String) (disk₀ : Disk String UInt8) (s : State) :
    Prop where
  file : s.disk.read path = s.fileContent disk₀ path
  persisted : ∀ p ∈ s.persisted, Sealed setup p.1 p.2
  tasks : ∀ id t, s.tasks id = some t → t.pc.Holds setup path s.disk t.share
  single : ∀ i j t u, s.tasks i = some t → s.tasks j = some u → t.pc.persisting = true →
    u.pc.persisting = true → i = j

/-- No file is opened while another call of `store_share` is at the temporary file. -/
def Serial (s : State) (l : ℕ × Action) : Prop :=
  l.2 = .create → ∀ j u, j ≠ l.1 → s.tasks j = some u → u.pc.persisting = false

theorem goto_tasks {id j : ℕ} {t u : Task} {p : Pc} (h : (s.goto id t p).tasks j = some u) :
    j = id ∧ u = { t with pc := p } ∨ j ≠ id ∧ s.tasks j = some u := by
  by_cases hj : j = id
  · subst hj
    have hself : (s.goto j t p).tasks j = some { t with pc := p } := Function.update_self ..
    rw [hself] at h
    exact .inl ⟨rfl, (Option.some.inj h).symm⟩
  · have hne : (s.goto id t p).tasks j = s.tasks j := Function.update_of_ne hj ..
    exact .inr ⟨hj, hne ▸ h⟩

theorem ended_tasks {id j : ℕ} {u : Task} (h : (s.ended id).tasks j = some u) :
    j ≠ id ∧ s.tasks j = some u := by
  by_cases hj : j = id
  · subst hj
    have hself : (s.ended j).tasks j = none := Function.update_self ..
    rw [hself] at h
    cases h
  · have hne : (s.ended id).tasks j = s.tasks j := Function.update_of_ne hj ..
    exact ⟨hj, hne ▸ h⟩

/-- Calls start and end, and nothing happens on the disk. -/
theorem Whole.of_tasks (h : Whole setup path disk₀ s) (hdisk : s'.disk = s.disk)
    (hpersisted : s'.persisted = s.persisted)
    (htasks : ∀ j u, s'.tasks j = some u → s.tasks j = some u ∨ u.pc = .sealing) :
    Whole setup path disk₀ s' where
  file := by
    rw [hdisk, State.fileContent, hpersisted]
    exact h.file
  persisted := hpersisted ▸ h.persisted
  tasks := by
    intro j u hu
    rcases htasks j u hu with hold | hsealing
    · rw [hdisk]
      exact h.tasks j u hold
    · rw [hsealing]
      trivial
  single := by
    have hold : ∀ j u, s'.tasks j = some u → u.pc.persisting = true → s.tasks j = some u := by
      intro j u hu hpersisting
      refine (htasks j u hu).resolve_right fun hsealing => ?_
      rw [hsealing] at hpersisting
      cases hpersisting
    intro i j t u ht hu hpt hpu
    exact h.single i j t u (hold i t ht hpt) (hold j u hu hpu) hpt hpu

/-- A call goes on, and nothing happens on the disk. -/
theorem Whole.goto (h : Whole setup path disk₀ s) {id : ℕ} {t : Task} {pc : Pc} {m : State}
    (hdisk : m.disk = s.disk) (hpersisted : m.persisted = s.persisted) (htasks : m.tasks = s.tasks)
    (holds : pc.Holds setup path s.disk t.share)
    (hothers : pc.persisting = true → ∀ j u, j ≠ id → s.tasks j = some u →
      u.pc.persisting = false) : Whole setup path disk₀ (m.goto id t pc) where
  file := (h.of_tasks hdisk hpersisted fun _ _ hu => .inl (htasks ▸ hu)).file
  persisted := (h.of_tasks hdisk hpersisted fun _ _ hu => .inl (htasks ▸ hu)).persisted
  tasks := by
    intro j u hu
    have hgoto : (m.goto id t pc).disk = s.disk := hdisk
    rw [hgoto]
    rcases goto_tasks hu with ⟨-, rfl⟩ | ⟨-, hold⟩
    · exact holds
    · exact h.tasks j u (htasks ▸ hold)
  single := by
    intro i j u v hu hv hpu hpv
    rcases goto_tasks hu with ⟨rfl, rfl⟩ | ⟨hi, hold⟩
    · rcases goto_tasks hv with ⟨rfl, rfl⟩ | ⟨hj, hold'⟩
      · rfl
      · rw [hothers hpu j v hj (htasks ▸ hold')] at hpv
        cases hpv
    · rcases goto_tasks hv with ⟨rfl, rfl⟩ | ⟨hj, hold'⟩
      · rw [hothers hpv i u hi (htasks ▸ hold)] at hpu
        cases hpu
      · exact h.single i j u v (htasks ▸ hold) (htasks ▸ hold') hpu hpv

/-- The only call that is at the temporary file changes the disk. -/
theorem Whole.alone (h : Whole setup path disk₀ s) {id : ℕ} {t : Task} {pc : Pc} {m : State}
    (htasks : m.tasks = s.tasks) (hfile : m.disk.read path = m.fileContent disk₀ path)
    (hpersisted : ∀ p ∈ m.persisted, Sealed setup p.1 p.2)
    (holds : pc.Holds setup path m.disk t.share)
    (hothers : ∀ j u, j ≠ id → s.tasks j = some u → u.pc.persisting = false) :
    Whole setup path disk₀ (m.goto id t pc) where
  file := hfile
  persisted := hpersisted
  tasks := by
    intro j u hu
    rcases goto_tasks hu with ⟨-, rfl⟩ | ⟨hj, hold⟩
    · exact holds
    · rw [htasks] at hold
      exact (h.tasks j u hold).of_not_persisting (hothers j u hj hold)
  single := by
    intro i j u v hu hv hpu hpv
    have hself : ∀ k w, (m.goto id t pc).tasks k = some w → w.pc.persisting = true → k = id := by
      intro k w hw hpw
      rcases goto_tasks hw with ⟨rfl, -⟩ | ⟨hk, hold⟩
      · rfl
      · rw [htasks] at hold
        rw [hothers k w hk hold] at hpw
        cases hpw
    rw [hself i u hu hpu, hself j v hv hpv]

/-- While one call is at the temporary file, no other is. -/
theorem Whole.others (h : Whole setup path disk₀ s) {id : ℕ} {t : Task} (ht : s.tasks id = some t)
    (hpc : t.pc.persisting = true) {j : ℕ} {u : Task} (hj : j ≠ id) (hu : s.tasks j = some u) :
    u.pc.persisting = false := by
  by_contra hpu
  exact hj (h.single j id u t hu ht (eq_true_of_ne_false hpu) hpc)

theorem Whole.init (setup : Setup) (path : String) (disk₀ : Disk String UInt8) :
    Whole setup path disk₀ (State.init setup disk₀) where
  file := rfl
  persisted _ hp := absurd hp List.not_mem_nil
  tasks _ _ ht := nomatch ht
  single _ _ _ _ ht := nomatch ht

/-- A step of a run without overlapping persists. -/
theorem Whole.step (h : Whole setup path disk₀ s)
    (hpath : sealedSharePath setup.sources = some path) {l : ℕ × Action} (hserial : Serial s l)
    (hstep : step setup s l = some s') :
    Whole setup path disk₀ s' := by
  cases step_cases hpath hstep with
  | crash => exact h.of_tasks rfl rfl fun _ _ hu => nomatch hu
  | gossip => exact h.of_tasks rfl rfl fun _ _ hu => .inl hu
  | reload => exact h.of_tasks rfl rfl fun _ _ hu => .inl hu
  | store hfree =>
    refine h.of_tasks rfl rfl fun j u hu => ?_
    rcases goto_tasks (t := ⟨_, .sealing⟩) (p := .sealing) hu with ⟨-, rfl⟩ | ⟨-, hold⟩
    · exact .inr rfl
    · exact .inl hold
  | sealed ht hpc hseal =>
    exact h.goto rfl rfl rfl ⟨_, hseal⟩ fun hpersisting => nomatch hpersisting
  | created ht hpc =>
    have hsealed := h.tasks _ _ ht
    rw [hpc] at hsealed
    refine h.alone rfl ?_ h.persisted ⟨hsealed, Partial.create ..⟩ (hserial rfl)
    exact (Disk.read_create_of_ne (tmpPath_ne path)).trans h.file
  | wrote ht hpc hchunk =>
    have hholds := h.tasks _ _ ht
    rw [hpc] at hholds
    obtain ⟨hsealed, hpartial⟩ := hholds
    refine h.alone rfl ?_ h.persisted ⟨hsealed, hpartial.writeAt 0 hchunk⟩
      fun j u => h.others ht (by rw [hpc]; rfl)
    exact (Disk.read_writeAt_of_ne (Disk.dir_ne_of_ne hpartial.dir (tmpPath_ne path))).trans h.file
  | closed ht hpc =>
    have hholds := h.tasks _ _ ht
    rw [hpc] at hholds
    exact h.goto rfl rfl rfl ⟨hholds.1, hholds.2.read_eq⟩ fun _ j u =>
      h.others ht (by rw [hpc]; rfl)
  | renamed ht hpc hrename =>
    have hholds := h.tasks _ _ ht
    rw [hpc] at hholds
    refine h.alone rfl ?_ ?_ trivial fun j u => h.others ht (by rw [hpc]; rfl)
    · exact (Disk.read_rename hrename path).trans ((if_pos rfl).trans hholds.2)
    · intro p hp
      rcases List.mem_cons.mp hp with rfl | hp
      · exact hholds.1
      · exact h.persisted p hp
  | gaveUp ht hpc hcreate =>
    exact h.goto rfl rfl rfl trivial fun hpersisting => nomatch hpersisting
  | key ht hpc => exact h.goto rfl rfl rfl trivial fun hpersisting => nomatch hpersisting
  | shard ht hpc =>
    exact h.of_tasks rfl rfl fun _ _ hu => .inl (ended_tasks hu).2

-- ════════════════════════════════════════════════════════════════════════
-- What a boot finds
-- ════════════════════════════════════════════════════════════════════════

/-- The node has a durable path and no blob set by hand; the codecs are the standard ones, and the
    two keys belong together. -/
structure Setup.Durable (setup : Setup) (path : String) : Prop where
  standard : setup.lib.Standard
  keyPair : setup.lib.KeyPair setup.ownPubkey setup.ownPrivkey
  sealedSharePath_eq : sealedSharePath setup.sources = some path
  sealedShareBlob_eq : sealedShareBlob setup.sources = none

/-- A sealed share is a text without white space that opens to its record. -/
theorem Sealed.opens (hsetup : setup.Durable path) {share : Share} {b64 : String}
    (h : Sealed setup share b64) : Solid b64 ∧
      unsealB64 (setup.lib.ops setup.ownPrivkey) b64 = .ok (some share.record) := by
  obtain ⟨randomness, hseal⟩ := h
  obtain ⟨ciphertext, hdecrypt, hseal'⟩ := exists_sealB64 hsetup.standard hsetup.keyPair randomness
    share.record
  rw [hseal] at hseal'
  obtain rfl := Except.ok.inj hseal'
  have hsolid : Solid (String.ofList (Base64Url.encode
      (magic ++ [envelopeVersion] ++ ciphertext))) := solid_encode (by simp [magic])
  have hrecord : setup.lib.fromSlice (recordBytes share.record) = .ok share.record := by
    apply hsetup.standard.fromSlice_of_read
    have hread := reads_record share.record (SealedShareV1.fits_new ..) []
    rwa [List.append_nil] at hread
  refine ⟨hsolid, (unsealB64_eq_some hsetup.standard).mpr ⟨ciphertext, _, ?_, hdecrypt, hrecord,
    rfl⟩⟩
  rw [hsolid.trim_eq, String.toList_ofList, Base64Url.decode_encode]

theorem blobAtBoot_onDisk (hsetup : setup.Durable path) (disk : Disk String UInt8)
    (failure : Option String) : blobAtBoot (setup.onDisk disk failure) =
      (readBlobFile (Seal.onDisk disk.read failure) path).toOption.join := by
  have hpath : sealedSharePath (setup.onDisk disk failure) = some path := hsetup.sealedSharePath_eq
  have hblob : sealedShareBlob (setup.onDisk disk failure) = none := hsetup.sealedShareBlob_eq
  rw [blobAtBoot, hpath, hblob]
  rfl

/-- Without a text in a readable file there is nothing to reload. -/
theorem reload_eq_none (hsetup : setup.Durable path) {disk : Disk String UInt8}
    {failure : Option String}
    (h : failure ≠ none ∨ disk.read path = none ∨ disk.read path = some []) (st : AppState) :
    tryReloadSealed (setup.lib.ops setup.ownPrivkey) (setup.onDisk disk failure) st =
      (st, false) := by
  have hblob : blobAtBoot (setup.onDisk disk failure) = none := by
    rw [blobAtBoot_onDisk hsetup]
    cases failure with
    | some e => rfl
    | none =>
      rcases h with hfailure | habsent | hempty
      · exact absurd rfl hfailure
      · simp [readBlobFile, Seal.onDisk, readToString, habsent, Except.toOption]
      · have htext : textOf [] = some "" := textOf_utf8 ""
        have hblank : isBlank "" = true := by decide
        simp [readBlobFile, Seal.onDisk, readToString, hempty, htext, hblank, Except.toOption]
  simp only [tryReloadSealed, hblob]

/-- The blob persisted last opens to the share it was made of. -/
theorem Whole.reload_eq (h : Whole setup path disk₀ s) (hsetup : setup.Durable path) {share : Share}
    {b64 : String} {earlier : List (Share × String)} (hlast : s.persisted = (share, b64) :: earlier)
    (st : AppState) :
    tryReloadSealed (setup.lib.ops setup.ownPrivkey) (setup.onDisk s.disk none) st =
      if share.epoch.toNat < st.knownEpoch then (st, false)
      else (adopt st b64 share.record, true) := by
  have hsealed : Sealed setup share b64 := by
    apply h.persisted (share, b64)
    rw [hlast]
    exact List.mem_cons_self
  obtain ⟨hsolid, hopen⟩ := hsealed.opens hsetup
  have hfile : s.disk.read path = some (utf8 b64) := by
    rw [h.file, State.fileContent, hlast]
  refine tryReloadSealed_opened ?_ hopen st
  rw [blobAtBoot_onDisk hsetup, readBlobFile_utf8 hsolid hfile]
  rfl

-- ════════════════════════════════════════════════════════════════════════
-- Runs of one task
-- ════════════════════════════════════════════════════════════════════════

/-- No share is stored while another one still is. -/
def OneStore (s : State) (l : ℕ × Action) : Prop :=
  ∀ share, l.2 = .store share → ∀ j, s.tasks j = none

/-- A node with keys of the tests, whose configuration names a durable path. -/
def plainSetup : Setup where
  config := ⟨"app", 2, 3, "http://a:4443", []⟩
  ethAddress := 1
  sources := ⟨none, none, none, some "/data/share.sealed", fun _ => .notFound⟩
  lib := plainLib
  ownPrivkey := [7]
  ownPubkey := [7]

theorem plainSetup_durable : plainSetup.Durable "/data/share.sealed" where
  standard := plainLib_standard
  keyPair := plainLib_keyPair [7]
  sealedSharePath_eq := by decide
  sealedShareBlob_eq := rfl

/-- A volume without files. -/
def blank : Disk String UInt8 where
  dir _ := none
  data _ := []
  fresh := 0
  dir_inj h := nomatch h
  dir_lt h := nomatch h

/-- The shares of the member 3 at genesis and after a reshare. -/
def shareAt (epoch : UInt64) : Share := ⟨3, epoch, ⟨[0x11], by decide⟩, ⟨[0xAA], by decide⟩⟩

/-- The node stores the share of the genesis, and is killed while it writes the next one. -/
def killed : List (ℕ × Action) :=
  [(0, .reload none), (0, .store (shareAt 1)), (0, .seal []), (0, .create), (0, .write 20),
    (0, .write 100), (0, .next), (0, .next), (0, .next), (0, .next), (0, .store (shareAt 2)),
    (0, .seal []), (0, .create), (0, .write 5)]

/-- A step leaves the other calls alone, or ends them. -/
theorem step_tasks (hpath : sealedSharePath setup.sources = some path) {l : ℕ × Action}
    (hstep : step setup s l = some s') {j : ℕ} (hj : j ≠ l.1) (hfree : s.tasks j = none) :
    s'.tasks j = none := by
  have hother : ∀ m : State, ∀ t pc, m.tasks = s.tasks → (m.goto l.1 t pc).tasks j = none := by
    intro m t pc hm
    exact (Function.update_of_ne hj ..).trans (hm ▸ hfree)
  cases step_cases hpath hstep with
  | crash => rfl
  | gossip => exact hfree
  | reload => exact hfree
  | store => exact hother s ⟨_, .sealing⟩ .sealing rfl
  | shard => exact (Function.update_of_ne hj ..).trans hfree
  | _ => exact hother _ _ _ rfl

/-- The conditions of the two properties, for runs in which only the task 0 stores shares. -/
def oneStore (s : State) : ℕ × Action → Bool
  | (0, .store _) => (s.tasks 0).isNone
  | (0, _) => true
  | _ => false

theorem eq_zero_of_oneStore {l : ℕ × Action} (h : oneStore s l = true) : l.1 = 0 := by
  unfold oneStore at h
  split at h
  · rfl
  · rfl
  · cases h

theorem meets_oneStore (hpath : sealedSharePath setup.sources = some path)
    {labels : List (ℕ × Action)}
    (hcheck : check (step setup) oneStore (State.init setup disk₀) labels = true) :
    Meets (step setup) (fun s l => Serial s l ∧ OneStore s l) (State.init setup disk₀) labels := by
  refine Meets.of_invariant (I := fun s => ∀ j, j ≠ 0 → s.tasks j = none)
    (G := fun s l => oneStore s l = true) ?_ ?_ (fun _ _ => rfl)
    (meets_of_check (fun _ _ h => h) hcheck)
  · intro s l s' hfree hone hstep j hj
    exact step_tasks hpath hstep (eq_zero_of_oneStore hone ▸ hj) (hfree j hj)
  · intro s l hfree hone
    refine ⟨fun _ j u hj hu => ?_, fun share hshare j => ?_⟩
    · rw [hfree j (eq_zero_of_oneStore hone ▸ hj)] at hu
      cases hu
    · by_cases hj : j = 0
      · obtain ⟨id, action⟩ := l
        obtain rfl : id = 0 := eq_zero_of_oneStore hone
        subst hj
        cases hshare
        exact Option.isNone_iff_eq_none.mp hone
      · exact hfree j hj

theorem tasks_eq_none_of_oneStore (hpath : sealedSharePath setup.sources = some path)
    {labels : List (ℕ × Action)}
    (hcheck : check (step setup) oneStore (State.init setup disk₀) labels = true)
    (hrun : exec (step setup) (State.init setup disk₀) labels = some s) {j : ℕ} (hj : j ≠ 0) :
    s.tasks j = none := by
  refine exec_invariant_of_meets (I := fun s => ∀ j, j ≠ 0 → s.tasks j = none)
    (G := fun s l => oneStore s l = true) ?_ (fun _ _ => rfl)
    (meets_of_check (fun _ _ h => h) hcheck) hrun j hj
  intro s l s' hfree hone hstep j hj
  exact step_tasks hpath hstep (eq_zero_of_oneStore hone ▸ hj) (hfree j hj)

-- ════════════════════════════════════════════════════════════════════════
-- What a kill leaves
-- ════════════════════════════════════════════════════════════════════════

/-- For every disk and every run, with kills and boots at any point, failing calls and writes in
    any pieces, in which no file is opened while another call is at the temporary file: the file is
    what it was at first or the whole blob that was persisted last, and a boot that can read it
    then adopts exactly the share persisted last, unless the cluster is known to be ahead. -/
theorem persisted_whole (hsetup : setup.Durable path) {labels : List (ℕ × Action)}
    (hserial : Meets (step setup) Serial (State.init setup disk₀) labels)
    (hrun : exec (step setup) (State.init setup disk₀) labels = some s) :
    s.disk.read path = s.fileContent disk₀ path ∧
    ∀ share b64 earlier, s.persisted = (share, b64) :: earlier → ∀ st,
      tryReloadSealed (setup.lib.ops setup.ownPrivkey) (setup.onDisk s.disk none) st =
        if share.epoch.toNat < st.knownEpoch then (st, false)
        else (adopt st b64 share.record, true) := by
  have hwhole : Whole setup path disk₀ s := exec_invariant_of_meets
    (fun _ _ _ hI hG hstep => hI.step hsetup.sealedSharePath_eq hG hstep)
    (Whole.init setup path disk₀) hserial hrun
  exact ⟨hwhole.file, fun _ _ _ hlast => hwhole.reload_eq hsetup hlast⟩

/-- After a kill in the middle of the second write, the share of the genesis is found. -/
theorem persisted_whole_killed : ∃ s b64,
    exec (step plainSetup) (State.init plainSetup blank) (killed ++ [(0, .crash)]) = some s ∧
    s.disk.read "/data/share.sealed" = some (utf8 b64) ∧ ∀ st,
      tryReloadSealed (plainLib.ops [7]) (plainSetup.onDisk s.disk none) st =
        if 1 < st.knownEpoch then (st, false) else (adopt st b64 (shareAt 1).record, true) := by
  have hmeets := @meets_oneStore plainSetup _ blank plainSetup_durable.sealedSharePath_eq
    (killed ++ [(0, .crash)]) rfl
  have hserial := hmeets.imp fun _ _ h => h.1
  obtain ⟨hfile, hreload⟩ := persisted_whole plainSetup_durable hserial rfl
  exact ⟨_, _, rfl, hfile, hreload (shareAt 1) _ [] rfl⟩

-- ════════════════════════════════════════════════════════════════════════
-- What a restart brings back
-- ════════════════════════════════════════════════════════════════════════

def State.lastPersisted (s : State) : Option Share := s.persisted.head?.map Prod.fst

/-- The file is done with, the share not yet in memory. -/
def State.UnderWay (s : State) (share : Share) : Prop :=
  ∃ id t, s.tasks id = some t ∧ t.share = share ∧ t.pc.storing = true

/-- Of a share in memory, the blob was lost, or it is the one persisted last, or the one before a
    share that is under way. -/
def Kept (s : State) (shard : ShardState) : Prop :=
  (∃ lost ∈ s.unpersisted, lost.shard = shard) ∨
    ∃ share, s.lastPersisted = some share ∧ (share.shard = shard ∨ s.UnderWay share)

structure Restorable (s : State) : Prop where
  kept : ∀ shard, s.st.shard = some shard → Kept s shard
  stored : ∀ id t, s.tasks id = some t → t.pc.storing = true →
    t.share ∈ s.unpersisted ∨ s.lastPersisted = some t.share
  single : ∀ i j t u, s.tasks i = some t → s.tasks j = some u → i = j

theorem Restorable.init (setup : Setup) (disk₀ : Disk String UInt8) :
    Restorable (State.init setup disk₀) where
  kept _ h := nomatch h
  stored _ _ h := nomatch h
  single _ _ _ _ h := nomatch h

theorem goto_tasks_self (s : State) (id : ℕ) (t : Task) (pc : Pc) :
    (s.goto id t pc).tasks id = some { t with pc := pc } :=
  Function.update_self ..

/-- The only call there is goes on. -/
theorem Restorable.goto (h : Restorable s) {id : ℕ} {t : Task} (ht : s.tasks id = some t) {pc : Pc}
    {m : State} (htasks : m.tasks = s.tasks)
    (hkept : ∀ shard, m.st.shard = some shard → Kept (m.goto id t pc) shard)
    (hstored : pc.storing = true → t.share ∈ m.unpersisted ∨ m.lastPersisted = some t.share) :
    Restorable (m.goto id t pc) where
  kept := hkept
  stored := by
    intro j u hu hpc
    rcases goto_tasks hu with ⟨-, rfl⟩ | ⟨hj, hold⟩
    · exact hstored hpc
    · exact absurd (h.single j id u t (htasks ▸ hold) ht) hj
  single := by
    have hself : ∀ k w, (m.goto id t pc).tasks k = some w → k = id := by
      intro k w hw
      rcases goto_tasks hw with ⟨rfl, -⟩ | ⟨-, hold⟩
      · rfl
      · exact h.single k id w t (htasks ▸ hold) ht
    intro i j u v hu hv
    rw [hself i u hu, hself j v hv]

/-- Of a share in memory, the blob was lost or is the one persisted last. -/
def Settled (s : State) (shard : ShardState) : Prop :=
  (∃ lost ∈ s.unpersisted, lost.shard = shard) ∨
    ∃ share, s.lastPersisted = some share ∧ share.shard = shard

theorem Settled.kept {shard : ShardState} (h : Settled s shard) : Kept s shard := by
  rcases h with hlost | ⟨share, hlast, heq⟩
  · exact .inl hlost
  · exact .inr ⟨share, hlast, .inl heq⟩

/-- While the only call has not persisted its share, no share is under way. -/
theorem Restorable.settled (h : Restorable s) {id : ℕ} {t : Task} (ht : s.tasks id = some t)
    (hpc : t.pc.storing = false) {shard : ShardState} (hshard : s.st.shard = some shard) :
    Settled s shard := by
  rcases h.kept shard hshard with hlost | ⟨share, hlast, heq | ⟨j, u, hu, -, hstoring⟩⟩
  · exact .inl hlost
  · exact .inr ⟨share, hlast, heq⟩
  · obtain rfl := h.single j id u t hu ht
    obtain rfl := Option.some.inj (hu.symm.trans ht)
    rw [hpc] at hstoring
    cases hstoring

/-- A call that has not persisted its share goes on to another place where it has not. -/
theorem Restorable.carry (h : Restorable s) {id : ℕ} {t : Task} (ht : s.tasks id = some t)
    (hpc : t.pc.storing = false) {pc : Pc} (hpc' : pc.storing = false) {m : State}
    (htasks : m.tasks = s.tasks) (hst : m.st.shard = s.st.shard)
    (hpersisted : m.persisted = s.persisted) (hunpersisted : m.unpersisted = s.unpersisted) :
    Restorable (m.goto id t pc) := by
  refine h.goto ht htasks ?_ fun hstoring => ?_
  · intro shard hshard
    have hsettled : Settled (m.goto id t pc) shard := by
      have hold := h.settled ht hpc (hst ▸ hshard)
      unfold Settled State.lastPersisted at hold ⊢
      rwa [← hpersisted, ← hunpersisted] at hold
    exact hsettled.kept
  · rw [hpc'] at hstoring
    cases hstoring

theorem Restorable.reload (h : Restorable s) (hwhole : Whole setup path disk₀ s)
    (hsetup : setup.Durable path) (hempty : disk₀.read path = none) (failure : Option String) :
    Restorable (s.reloaded setup failure) := by
  have hsame : ∀ found, tryReloadSealed (setup.lib.ops setup.ownPrivkey)
      (setup.onDisk s.disk failure) s.st = (s.st, found) →
        Restorable (s.reloaded setup failure) := by
    intro found hfound
    have hshard : (s.reloaded setup failure).st.shard = s.st.shard := by
      rw [State.reloaded, hfound]
    exact ⟨fun shard hs => h.kept shard (hshard ▸ hs), h.stored, h.single⟩
  cases failure with
  | some e => exact hsame false (reload_eq_none hsetup (.inl (Option.some_ne_none e)) s.st)
  | none =>
    cases hlast : s.persisted with
    | nil =>
      refine hsame false (reload_eq_none hsetup (.inr (.inl ?_)) s.st)
      rw [hwhole.file, State.fileContent, hlast]
      exact hempty
    | cons last earlier =>
      have hreload := hwhole.reload_eq hsetup hlast s.st
      by_cases hstale : last.1.epoch.toNat < s.st.knownEpoch
      · rw [if_pos hstale] at hreload
        exact hsame false hreload
      · rw [if_neg hstale] at hreload
        refine ⟨fun shard hshard => .inr ⟨last.1, ?_, .inl ?_⟩, h.stored, h.single⟩
        · rw [State.lastPersisted, State.reloaded, hlast]
          rfl
        · rw [State.reloaded, hreload] at hshard
          exact Option.some.inj hshard

/-- A step of a run in which shares are stored one after the other. -/
theorem Restorable.step (h : Restorable s) (hwhole : Whole setup path disk₀ s)
    (hsetup : setup.Durable path) (hempty : disk₀.read path = none) {l : ℕ × Action}
    (hone : OneStore s l) (hstep : step setup s l = some s') : Restorable s' := by
  cases step_cases hsetup.sealedSharePath_eq hstep with
  | crash =>
    refine ⟨fun _ hshard => ?_, fun _ _ ht => ?_, fun _ _ _ _ ht => ?_⟩
    · cases hshard
    · cases ht
    · cases ht
  | gossip => exact ⟨h.kept, h.stored, h.single⟩
  | reload => exact h.reload hwhole hsetup hempty _
  | @store id share hfree =>
    have hnone := hone share rfl
    have hself : ∀ j u, Function.update s.tasks id (some ⟨share, .sealing⟩) j = some u →
        j = id ∧ u = ⟨share, .sealing⟩ := by
      intro j u hu
      rcases goto_tasks (t := ⟨share, .sealing⟩) (p := .sealing) hu with hnew | ⟨-, hold⟩
      · exact hnew
      · rw [hnone j] at hold
        cases hold
    refine ⟨fun shard hshard => ?_, fun j u hu hstoring => ?_, fun i j u v hu hv => ?_⟩
    · rcases h.kept shard hshard with hlost | ⟨last, hlast, heq | ⟨j, u, hu, -⟩⟩
      · exact .inl hlost
      · exact .inr ⟨last, hlast, .inl heq⟩
      · rw [hnone j] at hu
        cases hu
    · obtain ⟨-, rfl⟩ := hself j u hu
      cases hstoring
    · rw [(hself i u hu).1, (hself j v hv).1]
  | sealed ht hpc hseal => exact h.carry ht (by rw [hpc]; rfl) rfl rfl rfl rfl rfl
  | created ht hpc => exact h.carry ht (by rw [hpc]; rfl) rfl rfl rfl rfl rfl
  | wrote ht hpc hchunk => exact h.carry ht (by rw [hpc]; rfl) rfl rfl rfl rfl rfl
  | closed ht hpc => exact h.carry ht (by rw [hpc]; rfl) rfl rfl rfl rfl rfl
  | renamed ht hpc hrename =>
    refine h.goto ht rfl ?_ fun _ => .inr rfl
    intro shard hshard
    rcases h.kept shard hshard with hlost | -
    · exact .inl hlost
    · exact .inr ⟨_, rfl, .inr ⟨_, _, goto_tasks_self .., rfl, rfl⟩⟩
  | gaveUp ht hpc hcreate =>
    refine h.goto ht rfl ?_ fun _ => .inl List.mem_cons_self
    intro shard hshard
    rcases h.settled ht hpc hshard with ⟨lost, hlost, heq⟩ | ⟨share, hlast, heq⟩
    · exact .inl ⟨lost, List.mem_cons_of_mem _ hlost, heq⟩
    · exact .inr ⟨share, hlast, .inl heq⟩
  | @key id t ht hpc =>
    refine h.goto ht rfl ?_ fun _ => h.stored id t ht (by rw [hpc]; rfl)
    intro shard hshard
    rcases h.kept shard hshard with hlost | ⟨share, hlast, heq | ⟨j, u, hu, hshare, -⟩⟩
    · exact .inl hlost
    · exact .inr ⟨share, hlast, .inl heq⟩
    · obtain rfl := h.single j id u t hu ht
      obtain rfl := Option.some.inj (hu.symm.trans ht)
      exact .inr ⟨share, hlast, .inr ⟨_, _, goto_tasks_self .., hshare, rfl⟩⟩
  | @shard id t ht hpc =>
    have hended : ∀ j u, (s.ended id).tasks j = some u → False := by
      intro j u hu
      obtain ⟨hj, hold⟩ := ended_tasks hu
      exact hj (h.single j id u t hold ht)
    refine ⟨fun shard hshard => ?_, fun j u hu => ?_, fun i j u v hu => ?_⟩
    · obtain rfl := Option.some.inj hshard
      rcases h.stored id t ht (by rw [hpc]; rfl) with hlost | hlast
      · exact .inl ⟨t.share, hlost, rfl⟩
      · exact .inr ⟨t.share, hlast, .inl rfl⟩
    · exact absurd hu (hended j u)
    · exact absurd hu (hended i u)

/-- A call that opens the temporary file is the only one there is. -/
theorem Restorable.serial (h : Restorable s) (hpath : sealedSharePath setup.sources = some path)
    {l : ℕ × Action} (hstep : DurableShare.step setup s l = some s') : Serial s l := by
  intro hcreate j u hj hu
  cases step_cases hpath hstep with
  | created ht hpc => exact absurd (h.single _ _ _ _ hu ht) hj
  | gaveUp ht hpc hne => exact absurd hcreate hne
  | _ => cases hcreate

/-- For every volume that holds no share yet and every run, with kills and boots at any point and
    failing calls, in which shares are stored one after the other: of the share in memory, either
    the blob was lost when it was stored, or a boot adopts it, or it adopts the share that is just
    being stored in its place; in each case unless the cluster is known to be ahead. -/
theorem restart_restores (hsetup : setup.Durable path) (hempty : disk₀.read path = none)
    {labels : List (ℕ × Action)}
    (hone : Meets (step setup) OneStore (State.init setup disk₀) labels)
    (hrun : exec (step setup) (State.init setup disk₀) labels = some s) {shard : ShardState}
    (hshard : s.st.shard = some shard) :
    (∃ lost ∈ s.unpersisted, lost.shard = shard) ∨
    ∃ share b64, (share.shard = shard ∨ s.UnderWay share) ∧ ∀ st,
      tryReloadSealed (setup.lib.ops setup.ownPrivkey) (setup.onDisk s.disk none) st =
        if share.epoch.toNat < st.knownEpoch then (st, false)
        else (adopt st b64 share.record, true) := by
  have hpath := hsetup.sealedSharePath_eq
  obtain ⟨hwhole, hrestorable⟩ : Whole setup path disk₀ s ∧ Restorable s :=
    exec_invariant_of_meets (I := fun s => Whole setup path disk₀ s ∧ Restorable s)
      (fun _ _ _ hI hG hstep => ⟨hI.1.step hpath (hI.2.serial hpath hstep) hstep,
        hI.2.step hI.1 hsetup hempty hG hstep⟩)
      ⟨Whole.init setup path disk₀, Restorable.init setup disk₀⟩ hone hrun
  rcases hrestorable.kept shard hshard with hlost | ⟨share, hlast, hkept⟩
  · exact .inl hlost
  · rw [State.lastPersisted, Option.map_eq_some_iff] at hlast
    obtain ⟨⟨share, b64⟩, hhead, rfl⟩ := hlast
    obtain ⟨earlier, hpersisted⟩ := List.head?_eq_some_iff.mp hhead
    exact .inr ⟨share, b64, hkept, hwhole.reload_eq hsetup hpersisted⟩

/-- While the second share is being written, a restart brings the first one back. -/
theorem restart_restores_killed : ∃ (s : State) (share : Share) (b64 : String),
    exec (step plainSetup) (State.init plainSetup blank) killed = some s ∧
    s.st.shard = some (shareAt 1).shard ∧ share.shard = (shareAt 1).shard ∧ ∀ st,
      tryReloadSealed (plainLib.ops [7]) (plainSetup.onDisk s.disk none) st =
        if share.epoch.toNat < st.knownEpoch then (st, false)
        else (adopt st b64 share.record, true) := by
  have hmeets := @meets_oneStore plainSetup _ blank plainSetup_durable.sealedSharePath_eq killed rfl
  have hone := hmeets.imp fun _ _ h => h.2
  obtain ⟨s, t₀, hrun, hshard, hlost, ht₀, hpc⟩ : ∃ s t₀,
      exec (step plainSetup) (State.init plainSetup blank) killed = some s ∧
      s.st.shard = some (shareAt 1).shard ∧ s.unpersisted = [] ∧ s.tasks 0 = some t₀ ∧
      t₀.pc.storing = false :=
    ⟨_, _, rfl, rfl, rfl, rfl, rfl⟩
  rcases restart_restores plainSetup_durable rfl hone hrun hshard with ⟨lost, hmem, -⟩ |
    ⟨share, b64, hkept | ⟨id, t, ht, -, hstoring⟩, hreload⟩
  · rw [hlost] at hmem
    cases hmem
  · exact ⟨s, share, b64, hrun, hshard, hkept, hreload⟩
  · by_cases hid : id = 0
    · subst hid
      obtain rfl := Option.some.inj (ht.symm.trans ht₀)
      rw [hpc] at hstoring
      cases hstoring
    · rw [tasks_eq_none_of_oneStore plainSetup_durable.sealedSharePath_eq rfl hrun hid] at ht
      cases ht

-- ════════════════════════════════════════════════════════════════════════
-- Persists that overlap
-- ════════════════════════════════════════════════════════════════════════

/-- When a call of `store_share` opens the temporary file just before another one renames it, the
    file at the path is empty, and a boot after a kill finds no share. -/
theorem overlap_truncates (hsetup : setup.Durable path) {i j : ℕ} (hij : i ≠ j) {t u : Task}
    {b64 b64' : String} (ht : s.tasks i = some t) (hpc : t.pc = .replacing b64)
    (hu : s.tasks j = some u) (hpc' : u.pc = .creating b64') :
    ∃ s', exec (step setup) s [(j, .create), (i, .next), (i, .crash)] = some s' ∧
      s'.disk.read path = some [] ∧ s'.lastPersisted = some t.share ∧ ∀ st,
        tryReloadSealed (setup.lib.ops setup.ownPrivkey) (setup.onDisk s'.disk none) st =
          (st, false) := by
  have hpath := hsetup.sealedSharePath_eq
  obtain ⟨opened, hcreate, htask, hdisk⟩ : ∃ opened, step setup s (j, .create) = some opened ∧
      opened.tasks i = some t ∧ opened.disk.read (tmpPath path) = some [] := by
    refine ⟨{ s with disk := (s.disk.create (tmpPath path)).1 }.goto j u
      (.writing b64' (s.disk.create (tmpPath path)).2 0), ?_, ?_, s.disk.read_create_self _⟩
    · simp only [step, hu, taskStep, hpc', hpath, Option.map_some]
    · exact (Function.update_of_ne hij ..).trans ht
  obtain ⟨disk, hrename⟩ : ∃ disk, opened.disk.rename (tmpPath path) path = some disk :=
    Disk.rename_isSome hdisk
  have hnext : step setup opened (i, .next) = some (opened.persist i t b64 disk) := by
    simp only [step, htask, taskStep, hpc, hpath, Option.map_some, hrename]
  have hempty : disk.read path = some [] := by
    rw [Disk.read_rename hrename path, if_pos rfl]
    exact hdisk
  refine ⟨(opened.persist i t b64 disk).crashed setup, ?_, hempty, rfl,
    fun st => reload_eq_none hsetup (.inr (.inr hempty)) st⟩
  rw [exec, hcreate, Option.bind_some, exec, hnext, Option.bind_some]
  rfl

/-- One share is about to be renamed, the next one about to be written. -/
def overlapping : List (ℕ × Action) :=
  [(0, .reload none), (0, .store (shareAt 1)), (0, .seal []), (0, .create), (0, .write 100),
    (0, .next), (1, .store (shareAt 2)), (1, .seal [])]

theorem overlap_truncates_both : ∃ s s',
    exec (step plainSetup) (State.init plainSetup blank) overlapping = some s ∧
    exec (step plainSetup) s [(1, .create), (0, .next), (0, .crash)] = some s' ∧
    s'.disk.read "/data/share.sealed" = some [] ∧ s'.lastPersisted = some (shareAt 1) := by
  obtain ⟨s, hs⟩ : ∃ s, exec (step plainSetup) (State.init plainSetup blank) overlapping = some s :=
    ⟨_, rfl⟩
  have htasks : ∃ t u b64 b64', s.tasks 0 = some t ∧ t.pc = .replacing b64 ∧ s.tasks 1 = some u ∧
      u.pc = .creating b64' ∧ t.share = shareAt 1 := by
    cases hs
    exact ⟨_, _, _, _, rfl, rfl, rfl, rfl, rfl⟩
  obtain ⟨t, u, b64, b64', ht, hpc, hu, hpc', hshare⟩ := htasks
  obtain ⟨s', hrun, hempty, hlast, -⟩ := overlap_truncates plainSetup_durable (by decide) ht hpc hu
    hpc'
  exact ⟨s, s', hs, hrun, hempty, hshare ▸ hlast⟩

end KmsCluster.DurableShare
