import KmsCluster.Gossip
import KmsCluster.Process

/-!
# Sealed shares at boot

Model of the reading side of `src/seal.rs` and of `try_reload_sealed` (`src/init.rs`): which blob a
booting node looks at, how it is opened, and when the share in it is adopted. Base64, ECIES under
the node's own key and `serde_bare` are the parameter `SealOps`; the environment and the file
system are the `Sources`. Log lines and metrics are left out.

The node decides on the state it has after the wait for its first peers.

## Main results

- `tryReloadSealed_opened`: what becomes of a record that opens.
- `reload_run`: the steps of `form_cluster` in `Process` that this function stands for.
- `sealed_adopted_iff`: when the share is adopted only if it belongs to the live cluster.
- `foreign_master_adopted`: a share of another master that is adopted.
-/

namespace KmsCluster.Seal

open Fallible Runs

-- ════════════════════════════════════════════════════════════════════════
-- Blobs
-- ════════════════════════════════════════════════════════════════════════

/-- `char::is_whitespace`. -/
def isWhitespace (c : Char) : Bool :=
  let n := c.toNat
  decide ((9 ≤ n ∧ n ≤ 13) ∨ n = 32 ∨ n = 0x85 ∨ n = 0xA0 ∨ n = 0x1680 ∨
    (0x2000 ≤ n ∧ n ≤ 0x200A) ∨ n = 0x2028 ∨ n = 0x2029 ∨ n = 0x202F ∨ n = 0x205F ∨ n = 0x3000)

/-- `str::trim`. -/
def trim (s : String) : String :=
  String.ofList (((s.toList.dropWhile isWhitespace).reverse.dropWhile isWhitespace).reverse)

def isBlank (s : String) : Bool := (trim s).isEmpty

/-- b"KMSS". -/
def magic : Bytes := [0x4B, 0x4D, 0x53, 0x53]

def envelopeVersion : UInt8 := 1

def recordVersion : ℕ := 1

/-- The record inside a blob. -/
structure SealedShareV1 where
  recordVersion : ℕ
  shardIndex : ℕ
  epoch : ℕ
  masterId : Bytes
  share : Bytes
  deriving DecidableEq

/-- What opening a blob calls outside the repository. -/
structure SealOps where
  /-- `URL_SAFE_NO_PAD.decode`. -/
  decodeBase64 : String → Option Bytes
  /-- `ecies_decrypt` with the node's own key. -/
  eciesDecrypt : Bytes → Except String Bytes
  /-- `serde_bare::from_slice`. -/
  fromSlice : Bytes → Except String SealedShareV1

/-- `.ok none` is every case of no usable share, an error a corrupt record of our own. -/
def unsealFromBytes (O : SealOps) (buf : Bytes) : Except String (Option SealedShareV1) :=
  if buf.length < 5 ∨ buf.take 4 ≠ magic then .ok none
  else if buf.getD 4 0 ≠ envelopeVersion then .ok none
  else
    match O.eciesDecrypt (buf.drop 5) with
    | .error _ => .ok none
    | .ok payload => do
      let record ← (O.fromSlice payload).mapError ("unseal deserialize: " ++ ·)
      return if record.recordVersion ≠ recordVersion then none else some record

def unsealB64 (O : SealOps) (s : String) : Except String (Option SealedShareV1) :=
  if isBlank s then .ok none
  else
    match O.decodeBase64 (trim s) with
    | some buf => unsealFromBytes O buf
    | none => .ok none

-- ════════════════════════════════════════════════════════════════════════
-- Where a blob comes from
-- ════════════════════════════════════════════════════════════════════════

/-- `std::fs::read_to_string`. -/
inductive FileRead where
  | content (s : String)
  | notFound
  | failed (error : String)

/-- The environment, the `[cluster]` section of the configuration and the files. -/
structure Sources where
  envShare : Option String
  configShare : Option String
  envPath : Option String
  configPath : Option String
  file : String → FileRead

/-- The environment goes before the configuration; a blank value counts as absent. -/
def override (env config : Option String) : Option String :=
  ((env.filter (!isBlank ·)).or config).filter (!isBlank ·)

def sealedShareBlob (src : Sources) : Option String := override src.envShare src.configShare

def sealedSharePath (src : Sources) : Option String :=
  (override src.envPath src.configPath).map trim

def readBlobFile (src : Sources) (path : String) : Except String (Option String) :=
  match src.file path with
  | .content s => .ok (if isBlank s then none else some (trim s))
  | .notFound => .ok none
  | .failed e => .error ("seal read " ++ path ++ ": " ++ e)

/-- The blob a booting node looks at. An unreadable file counts as none. -/
def blobAtBoot (src : Sources) : Option String :=
  (sealedShareBlob src).or ((sealedSharePath src).bind fun path =>
    ((readBlobFile src path).toOption.join))

-- ════════════════════════════════════════════════════════════════════════
-- Reloading
-- ════════════════════════════════════════════════════════════════════════

/-- The state after a share was adopted. -/
def adopt (st : AppState) (b64 : String) (record : SealedShareV1) : AppState :=
  { st with
    sealedShare := some (trim b64)
    groupPubkey := some record.masterId
    shard := some ⟨record.shardIndex, record.share, record.epoch⟩ }

/-- `try_reload_sealed`, with the state it leaves. -/
def tryReloadSealed (O : SealOps) (src : Sources) (st : AppState) : AppState × Bool :=
  match blobAtBoot src with
  | none => (st, false)
  | some b64 =>
    match unsealB64 O b64 with
    | .ok (some record) =>
      if record.epoch < st.knownEpoch then (st, false) else (adopt st b64 record, true)
    | .ok none => (st, false)
    | .error _ => (st, false)

theorem tryReloadSealed_opened {O : SealOps} {src : Sources} {b64 : String}
    {record : SealedShareV1} (hblob : blobAtBoot src = some b64)
    (hopen : unsealB64 O b64 = .ok (some record)) (st : AppState) :
    tryReloadSealed O src st =
      if record.epoch < st.knownEpoch then (st, false) else (adopt st b64 record, true) := by
  simp only [tryReloadSealed, hblob, hopen]

/-- What `Process` lets its boot step find: the record and the text of its blob. -/
def found (O : SealOps) (src : Sources) : Option (Process.SealedRecord × String) := do
  let b64 ← blobAtBoot src
  let record ← (unsealB64 O b64).toOption.join
  return (⟨record.shardIndex, record.epoch, record.masterId, record.share⟩, trim b64)

theorem tryReloadSealed_of_found_none {O : SealOps} {src : Sources} (h : found O src = none)
    (st : AppState) : tryReloadSealed O src st = (st, false) := by
  unfold tryReloadSealed
  split
  · rfl
  · next b64 hblob =>
    split
    · next record hopen =>
      simp [found, hblob, hopen, Except.toOption] at h
    · rfl
    · rfl

theorem found_eq_some {O : SealOps} {src : Sources} {record : Process.SealedRecord} {blob : String}
    (h : found O src = some (record, blob)) : ∃ b64 opened, blobAtBoot src = some b64 ∧
      unsealB64 O b64 = .ok (some opened) ∧ blob = trim b64 ∧
      record = ⟨opened.shardIndex, opened.epoch, opened.masterId, opened.share⟩ := by
  obtain ⟨b64, hblob, h⟩ := Option.bind_eq_some_iff.mp h
  obtain ⟨opened, hopened, h⟩ := Option.bind_eq_some_iff.mp h
  cases h
  refine ⟨b64, opened, hblob, ?_, rfl, rfl⟩
  cases hopen : unsealB64 O b64 with
  | error e =>
    rw [hopen] at hopened
    cases hopened
  | ok result =>
    rw [hopen] at hopened
    exact congrArg Except.ok hopened

section Refinement

variable {F G₁ G₂ : Type} [NatCast F] (B : Blsful F G₁ G₂)

/-- Steps of `form_cluster` alone, which leave the state that the function returns. -/
theorem reload_run (O : SealOps) (src : Sources) {s : Process.State F G₁} {t : Process.Task F G₁}
    (ht : s.tasks 0 = some t) (hpc : t.pc = .boot) : ∃ n s',
      exec (Process.step B) s ((0, .boot (found O src)) :: List.replicate n (0, .next)) = some s' ∧
        s'.st = (tryReloadSealed O src s.st).1 := by
  cases hfound : found O src with
  | none =>
    refine ⟨0, s.goto 0 t .loop, ?_, ?_⟩
    · exact Process.exec_taskStep ht nofun (by rw [hpc]; rfl)
    · rw [tryReloadSealed_of_found_none hfound]
      rfl
  | some result =>
    obtain ⟨record, blob⟩ := result
    obtain ⟨b64, opened, hblob, hopen, rfl, rfl⟩ := found_eq_some hfound
    rw [tryReloadSealed_opened hblob hopen]
    by_cases hstale : opened.epoch < s.st.knownEpoch
    · have hknown : opened.epoch < max (shardEpoch s.st.shard) s.st.peerTable.maxEpoch := hstale
      rw [if_pos hstale]
      refine ⟨2, ?looping, ?declines, ?unchanged⟩
      case declines =>
        refine (Process.exec_taskStep ht (by nofun) (by rw [hpc]; rfl)).trans ?_
        refine (Process.exec_taskStep (Process.goto_tasks_self ..) (by nofun) rfl).trans ?_
        exact Process.exec_taskStep (Process.goto_tasks_self ..) (by nofun) (by exact if_pos hknown)
      case unchanged => rfl
    · have hknown : ¬ opened.epoch < max (shardEpoch s.st.shard) s.st.peerTable.maxEpoch := hstale
      rw [if_neg hstale]
      refine ⟨5, ?stored, ?stores, ?adopted⟩
      case stores =>
        refine (Process.exec_taskStep ht (by nofun) (by rw [hpc]; rfl)).trans ?_
        refine (Process.exec_taskStep (Process.goto_tasks_self ..) (by nofun) rfl).trans ?_
        refine (Process.exec_taskStep (Process.goto_tasks_self ..) (by nofun)
          (by exact if_neg hknown)).trans ?_
        refine (Process.exec_taskStep (Process.setTask_tasks_self ..) (by nofun) rfl).trans ?_
        refine (Process.exec_taskStep (Process.goto_tasks_self ..) (by nofun) rfl).trans ?_
        exact Process.exec_taskStep (Process.goto_tasks_self ..) (by nofun) (by rfl)
      case adopted => rfl

end Refinement

-- ════════════════════════════════════════════════════════════════════════
-- The live cluster
-- ════════════════════════════════════════════════════════════════════════

/-- Every live peer that reports a group public key reports the record's master. -/
def MasterAgrees (st : AppState) (now : ℤ) (record : SealedShareV1) : Prop :=
  st.peerTable.All fun _ e => e.isLive now = true → e.groupPubkey ≠ [] →
    e.groupPubkey = record.masterId

/-- The record still belongs to the cluster that the peer table shows at `now`. -/
structure Belongs (st : AppState) (now : ℤ) (record : SealedShareV1) : Prop where
  epoch : st.peerTable.All fun _ e => e.epoch ≤ record.epoch
  master : MasterAgrees st now record

theorem epoch_le_of_knownEpoch_le {st : AppState} {n : ℕ} (h : st.knownEpoch ≤ n) :
    st.peerTable.All fun _ e => e.epoch ≤ n := by
  intro addr e he
  exact le_trans (PeerTable.epoch_le_maxEpoch he) (le_trans (le_max_right _ _) h)

/-- For every record that opens and every state of the node: the share is adopted only when its
    epoch is not below that of any known peer; that it is left alone whenever it does not belong to
    the live cluster holds exactly when its epoch is behind or no live peer reports another
    master. -/
theorem sealed_adopted_iff {O : SealOps} {src : Sources} {b64 : String} {record : SealedShareV1}
    (hblob : blobAtBoot src = some b64) (hopen : unsealB64 O b64 = .ok (some record))
    (st : AppState) (now : ℤ) :
    ((tryReloadSealed O src st).2 = true → st.peerTable.All fun _ e => e.epoch ≤ record.epoch) ∧
      ((¬ Belongs st now record → tryReloadSealed O src st = (st, false)) ↔
        record.epoch < st.knownEpoch ∨ MasterAgrees st now record) := by
  rw [tryReloadSealed_opened hblob hopen]
  by_cases hstale : record.epoch < st.knownEpoch
  · rw [if_pos hstale]
    exact ⟨nofun, fun _ => .inl hstale, fun _ _ => rfl⟩
  · rw [if_neg hstale]
    have hepoch := epoch_le_of_knownEpoch_le (not_lt.mp hstale)
    refine ⟨fun _ => hepoch, ?_, ?_⟩
    · intro h
      by_contra hnot
      rw [not_or] at hnot
      have hkept := h fun hbelongs => hnot.2 hbelongs.master
      exact absurd (congrArg Prod.snd hkept) (by simp)
    · rintro (hbehind | hagrees) hnot
      · exact absurd hbehind hstale
      · exact absurd ⟨hepoch, hagrees⟩ hnot

/-- The blob of `plainOps`: the header, then what its envelope hides. -/
def plainBlob : Bytes := magic ++ [envelopeVersion, 7]

/-- Opens one blob, which holds `record`. -/
def plainOps (record : SealedShareV1) : SealOps where
  decodeBase64 s := if s = "S01TUwEH" then some plainBlob else none
  eciesDecrypt ciphertext := if ciphertext = [7] then .ok [9] else .error "decrypt failed"
  fromSlice payload := if payload = [9] then .ok record else .error "unexpected end of input"

/-- The blob is set in the configuration. -/
def configured : Sources := ⟨none, some " S01TUwEH\n", none, none, fun _ => .notFound⟩

/-- A booting node and a live peer at epoch 1 of the master `[2]`. -/
def booting : AppState :=
  { AppState.new ⟨"app", 2, 3, "http://a:4443", []⟩ 1 with
    peerTable := AList.insert 2 ⟨"http://b:4443", 1000, [4], 1, [2]⟩ ∅ }

theorem blobAtBoot_configured : blobAtBoot configured = some " S01TUwEH\n" := by decide

theorem unsealB64_plain {record : SealedShareV1} (h : record.recordVersion = 1) :
    unsealB64 (plainOps record) " S01TUwEH\n" = .ok (some record) := by
  have hblank : isBlank " S01TUwEH\n" = false := by decide
  have htrim : trim " S01TUwEH\n" = "S01TUwEH" := by decide
  simp [unsealB64, hblank, htrim, unsealFromBytes, plainOps, plainBlob, magic, envelopeVersion,
    recordVersion, h, Except.mapError, pure, Except.pure, bind, Except.bind]

/-- A share that is behind is left alone. -/
theorem sealed_adopted_behind : ¬ Belongs booting 1010 ⟨1, 1, 0, [1], [5]⟩ ∧
    tryReloadSealed (plainOps ⟨1, 1, 0, [1], [5]⟩) configured booting = (booting, false) := by
  have hopen : unsealB64 (plainOps ⟨1, 1, 0, [1], [5]⟩) " S01TUwEH\n" =
      .ok (some ⟨1, 1, 0, [1], [5]⟩) := unsealB64_plain rfl
  have hnot : ¬ Belongs booting 1010 ⟨1, 1, 0, [1], [5]⟩ := by
    intro hbelongs
    have hepoch : 1 ≤ 0 := hbelongs.epoch 2 _ rfl
    omega
  exact ⟨hnot, (sealed_adopted_iff blobAtBoot_configured hopen booting 1010).2.mpr
    (.inl (by decide)) hnot⟩

/-- After a new genesis at epoch 1, a share of epoch 7 of the old master `[1]` is adopted. -/
theorem foreign_master_adopted : ∃ st, tryReloadSealed (plainOps ⟨1, 1, 7, [1], [5]⟩) configured
      booting = (st, true) ∧ st.groupPubkey = some [1] ∧ st.knownEpoch = 7 ∧
    ¬ MasterAgrees booting 1010 ⟨1, 1, 7, [1], [5]⟩ := by
  refine ⟨_, rfl, rfl, rfl, ?_⟩
  intro hagrees
  have hmaster := hagrees 2 _ rfl (by decide) (by decide)
  revert hmaster
  decide

end KmsCluster.Seal
