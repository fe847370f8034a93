import KmsCluster.Derive

/-!
# Key derivation with altered requests

`collect_and_dprf` (`src/grpc.rs`) when the requests that reached some peers were for another app
id or material than the coordinator's. What a caller signs of a request is its method and time, so
whoever stands between two nodes can change the rest; the answer is signed and encrypted like any
other, and nothing in it names the request.

## Main results

- `Mixed.run`: what the collection loop holds after answers to any requests.
- `altered_requests_iff`: when the derivation succeeds, with which key, and that one answer to
  another request spoils it.
-/

namespace KmsCluster

open Fallible Interpolation Polynomial

/-- An honest node's answer to the request that reached it. -/
structure Answered where
  shard : ShardState
  appId : String
  material : Bytes

def Answered.msg (a : Answered) : Bytes := dprfMessage a.appId a.material

-- ════════════════════════════════════════════════════════════════════════
-- First answers
-- ════════════════════════════════════════════════════════════════════════

def noteFirst (noted : List (ℕ × Bytes)) (p : ℕ × Bytes) : List (ℕ × Bytes) :=
  if p.1 ∈ noted.map Prod.fst then noted else noted ++ [p]

/-- The first answer of each index at an epoch: its index and its message. -/
def firstAnswers (sources : List Answered) (epoch : ℕ) : List (ℕ × Bytes) :=
  ((sources.filter (·.shard.epoch = epoch)).map fun a => (a.shard.shardIndex, a.msg)).foldl
    noteFirst []

@[simp] theorem firstAnswers_nil (epoch : ℕ) : firstAnswers [] epoch = [] := rfl

theorem firstAnswers_append_singleton (sources : List Answered) (a : Answered) (epoch : ℕ) :
    firstAnswers (sources ++ [a]) epoch =
      if a.shard.epoch = epoch then
        noteFirst (firstAnswers sources epoch) (a.shard.shardIndex, a.msg)
      else firstAnswers sources epoch := by
  unfold firstAnswers
  split
  · next h => simp [List.filter_append, h]
  · next h => simp [List.filter_append, h]

theorem firstAnswers_nodup (sources : List Answered) (epoch : ℕ) :
    ((firstAnswers sources epoch).map Prod.fst).Nodup := by
  induction sources using List.reverseRecOn with
  | nil => exact List.nodup_nil
  | append_singleton sources a ih =>
    rw [firstAnswers_append_singleton]
    split
    · unfold noteFirst
      split
      · exact ih
      · next hnew =>
        rw [List.map_append, List.map_singleton]
        exact List.nodup_append.mpr ⟨ih, List.nodup_singleton _, by
          rintro i hi j hj rfl
          rw [List.mem_singleton] at hj
          exact hnew (hj ▸ hi)⟩
    · exact ih

theorem exists_of_mem_firstAnswers {sources : List Answered} {epoch : ℕ} {p : ℕ × Bytes}
    (hp : p ∈ firstAnswers sources epoch) :
    ∃ a ∈ sources, a.shard.epoch = epoch ∧ p = (a.shard.shardIndex, a.msg) := by
  induction sources using List.reverseRecOn with
  | nil => cases hp
  | append_singleton sources a ih =>
    have hold : p ∈ firstAnswers sources epoch → ∃ b ∈ sources ++ [a], b.shard.epoch = epoch ∧
        p = (b.shard.shardIndex, b.msg) := by
      intro hp
      obtain ⟨b, hb, hrest⟩ := ih hp
      exact ⟨b, List.mem_append_left _ hb, hrest⟩
    rw [firstAnswers_append_singleton] at hp
    split at hp
    · next hepoch =>
      unfold noteFirst at hp
      split at hp
      · exact hold hp
      · rcases List.mem_append.mp hp with hp | hp
        · exact hold hp
        · exact ⟨a, List.mem_append_right _ (List.mem_singleton_self a), hepoch,
            List.mem_singleton.mp hp⟩
    · exact hold hp

/-- Some epoch has a threshold of answers. -/
def Enough (threshold : ℕ) (sources : List Answered) : Prop :=
  ∃ epoch, threshold ≤ (firstAnswers sources epoch).length

section Loop

variable {F G₁ G₂ : Type} [Field F] [AddCommGroup G₂] [Module F G₂] {B : Blsful F G₁ G₂}
  {f : ℕ → F[X]} {threshold : ℕ} {sources : List Answered} {c : Collect F G₂}

/-- What the loop variables hold once the answers `sources` went in, the coordinator's own
    included. -/
structure Mixed (B : Blsful F G₁ G₂) (f : ℕ → F[X]) (threshold : ℕ) (sources : List Answered)
    (c : Collect F G₂) : Prop where
  seen_eq : ∀ e, Multimap.get c.seen e = (firstAnswers sources e).map Prod.fst
  buckets_eq : ∀ e, Multimap.get c.buckets e =
    (firstAnswers sources e).map fun p => partialAt B (f e) p.2 p.1
  ready_some : ∀ e, c.ready = some e → threshold ≤ (firstAnswers sources e).length ∧
    ∀ e', threshold ≤ (firstAnswers sources e').length → e' = e
  ready_none : c.ready = none → ¬ Enough threshold sources

/-- The answer of an index that is there already. -/
theorem Mixed.again (h : Mixed B f threshold sources c) {a : Answered}
    (hold : a.shard.shardIndex ∈ Multimap.get c.seen a.shard.epoch) :
    Mixed B f threshold (sources ++ [a]) c := by
  have hsame : ∀ e, firstAnswers (sources ++ [a]) e = firstAnswers sources e := by
    intro e
    rw [firstAnswers_append_singleton]
    split
    · next hepoch =>
      subst hepoch
      rw [h.seen_eq] at hold
      exact if_pos hold
    · rfl
  refine ⟨?_, ?_, ?_, ?_⟩
  · intro e
    rw [hsame, h.seen_eq]
  · intro e
    rw [hsame, h.buckets_eq]
  · intro e he
    simp only [hsame]
    exact h.ready_some e he
  · rintro hnone ⟨e, he⟩
    rw [hsame] at he
    exact h.ready_none hnone ⟨e, he⟩

/-- The answer of a new index goes in, and `ready` follows its bucket. -/
theorem Mixed.push (h : Mixed B f threshold sources c) (hready : c.ready = none) {a : Answered}
    {c' : Collect F G₂} (hnew : a.shard.shardIndex ∉ Multimap.get c.seen a.shard.epoch)
    (hseen : c'.seen = Multimap.push c.seen a.shard.epoch a.shard.shardIndex)
    (hbuckets : c'.buckets = Multimap.push c.buckets a.shard.epoch
      (partialAt B (f a.shard.epoch) a.msg a.shard.shardIndex))
    (hready' : c'.ready = if threshold ≤ (Multimap.get c'.buckets a.shard.epoch).length
      then some a.shard.epoch else none) :
    Mixed B f threshold (sources ++ [a]) c' := by
  have hself : firstAnswers (sources ++ [a]) a.shard.epoch =
      firstAnswers sources a.shard.epoch ++ [(a.shard.shardIndex, a.msg)] := by
    rw [h.seen_eq] at hnew
    rw [firstAnswers_append_singleton, if_pos rfl]
    exact if_neg hnew
  have hother : ∀ e, e ≠ a.shard.epoch →
      firstAnswers (sources ++ [a]) e = firstAnswers sources e := by
    intro e he
    rw [firstAnswers_append_singleton, if_neg he.symm]
  have hbucket : ∀ e, Multimap.get c'.buckets e =
      (firstAnswers (sources ++ [a]) e).map fun p => partialAt B (f e) p.2 p.1 := by
    intro e
    rw [hbuckets]
    by_cases he : e = a.shard.epoch
    · subst he
      simp [hself, h.buckets_eq]
    · rw [Multimap.get_push_of_ne _ _ he, hother e he, h.buckets_eq]
  refine ⟨?_, hbucket, ?_, ?_⟩
  · intro e
    rw [hseen]
    by_cases he : e = a.shard.epoch
    · subst he
      simp [hself, h.seen_eq]
    · rw [Multimap.get_push_of_ne _ _ he, hother e he, h.seen_eq]
  · intro e he
    rw [hready'] at he
    split at he
    · next hlarge =>
      cases he
      rw [hbucket, List.length_map] at hlarge
      refine ⟨hlarge, fun e' he' => ?_⟩
      by_contra hne
      rw [hother e' hne] at he'
      exact h.ready_none hready ⟨e', he'⟩
    · cases he
  · rintro hnone ⟨e, he⟩
    rw [hready'] at hnone
    split at hnone
    · cases hnone
    · next hsmall =>
      by_cases hepoch : e = a.shard.epoch
      · subst hepoch
        rw [hbucket, List.length_map] at hsmall
        exact hsmall he
      · rw [hother e hepoch] at he
        exact h.ready_none hready ⟨e, he⟩

theorem Mixed.start (hthreshold : 2 ≤ threshold) (own : Answered) :
    Mixed B f threshold [own] (Collect.start threshold own.shard
      (partialAt B (f own.shard.epoch) own.msg own.shard.shardIndex)) := by
  have hempty : Mixed B f threshold [] (⟨∅, ∅, ∅, none⟩ : Collect F G₂) := by
    refine ⟨by simp, by simp, by simp, ?_⟩
    rintro _ ⟨e, he⟩
    rw [firstAnswers_nil, List.length_nil] at he
    omega
  exact hempty.push rfl (by simp) rfl rfl rfl

variable [DecidableEq F] [AddCommGroup G₁] [Module F G₁]

def Answered.read (B : Blsful F G₁ G₂) (a : Answered) : PartialReply :=
  getDprfPartial B (some a.shard) a.appId a.material

theorem Mixed.receive (hB : B.Lawful) (h : Mixed B f threshold sources c) (hready : c.ready = none)
    {a : Answered} (ha : OnPolynomial B f a.shard) :
    Mixed B f threshold (sources ++ [a]) (c.receive B threshold (a.read B)) := by
  rw [Answered.read, ha.getDprfPartial_eq hB]
  simp only [Collect.receive, hB.partialFromBytes_toBytes]
  split
  · next hold => exact h.again hold
  · next hnew => exact h.push hready hnew rfl rfl (by simp [hready])

/-- The loop takes the answers in order, until an epoch has enough of them. -/
theorem Mixed.run (hB : B.Lawful) (answers : List (Except String Answered))
    (hanswers : ∀ a, .ok a ∈ answers → OnPolynomial B f a.shard)
    (h : Mixed B f threshold sources c) :
    ∃ taken, taken <+: answers.filterMap Except.toOption ∧
      (let c' := c.run B threshold (answers.map (·.bind (Answered.read B)))
       Mixed B f threshold (sources ++ taken) c' ∧
        (c'.ready = none → taken = answers.filterMap Except.toOption)) ∧
      ∀ shorter, shorter <+: taken → shorter ≠ taken → ¬ Enough threshold (sources ++ shorter) := by
  induction answers generalizing sources c with
  | nil =>
    refine ⟨[], List.nil_prefix, ⟨by simpa [Collect.run] using h, fun _ => rfl⟩, ?_⟩
    intro shorter hshorter hne
    exact absurd (List.prefix_nil.mp hshorter) hne
  | cons answer answers ih =>
    have hrest : ∀ a, .ok a ∈ answers → OnPolynomial B f a.shard :=
      fun a ha => hanswers a (List.mem_cons_of_mem _ ha)
    rw [List.map_cons]
    simp only [Collect.run]
    split
    · next hready =>
      refine ⟨[], List.nil_prefix, ⟨by simpa using h, fun hnone => ?_⟩, ?_⟩
      · simp [hnone] at hready
      · intro shorter hshorter hne
        exact absurd (List.prefix_nil.mp hshorter) hne
    · next hready =>
      have hnone : c.ready = none := by simpa using hready
      cases answer with
      | error e =>
        rw [List.filterMap_cons_none rfl]
        exact ih hrest h
      | ok a =>
        have ha : OnPolynomial B f a.shard := hanswers a List.mem_cons_self
        obtain ⟨taken, hinit, ⟨hmixed, hall⟩, hshort⟩ := ih hrest (h.receive hB hnone ha)
        refine ⟨a :: taken, (List.prefix_cons_inj a).mpr hinit, ⟨?_, fun hend => ?_⟩, ?_⟩
        · rw [← List.append_cons] at hmixed
          exact hmixed
        · rw [hall hend]
          rfl
        · intro shorter hshorter hne
          cases shorter with
          | nil =>
            rw [List.append_nil]
            exact h.ready_none hnone
          | cons b shorter =>
            obtain ⟨rfl, hinit'⟩ := List.cons_prefix_cons.mp hshorter
            rw [List.append_cons]
            exact hshort shorter hinit' fun heq => hne (by rw [heq])

/-- What answers to other messages add to the combined signature. -/
def drift (B : Blsful F G₁ G₂) (f : F[X]) (msg : Bytes) (answers : List (ℕ × Bytes)) : G₂ :=
  atZero (answers.map fun p =>
    ((p.1 : F), f.eval (p.1 : F) • (B.hashToCurve p.2 - B.hashToCurve msg)))

variable {answers : List (ℕ × Bytes)}

theorem cast_nodup (hB : B.Lawful) (hnodup : (answers.map Prod.fst).Nodup)
    (hu32 : ∀ p ∈ answers, p.1 < 2 ^ 32) : (answers.map fun p => (p.1 : F)).Nodup := by
  have hcast : ((answers.map Prod.fst).map fun i : ℕ => (i : F)).Nodup := by
    refine List.Nodup.map_on (fun i hi j hj => ?_) hnodup
    obtain ⟨p, hp, rfl⟩ := List.mem_map.mp hi
    obtain ⟨q, hq, rfl⟩ := List.mem_map.mp hj
    exact hB.cast_inj _ _ (hu32 p hp) (hu32 q hq)
  rwa [List.map_map] at hcast

theorem dprfSigma_drift (hB : B.Lawful) {f : F[X]} (msg : Bytes)
    (hnodup : (answers.map Prod.fst).Nodup) (hu32 : ∀ p ∈ answers, p.1 < 2 ^ 32)
    (htwo : 2 ≤ answers.length) (hdeg : f.degree < answers.length) :
    dprfSigma B (answers.map fun p => partialAt B f p.2 p.1) =
      .ok (f.eval 0 • B.hashToCurve msg + drift B f msg answers) := by
  have hcast := cast_nodup hB hnodup hu32
  have hsplit : ∀ p : ℕ × Bytes, f.eval (p.1 : F) • B.hashToCurve p.2 =
      f.eval (p.1 : F) • B.hashToCurve msg +
        f.eval (p.1 : F) • (B.hashToCurve p.2 - B.hashToCurve msg) := by
    intro p
    rw [← smul_add, add_sub_cancel]
  have hzero := atZero_eval hcast f (by simpa using hdeg) (B.hashToCurve msg)
  rw [List.map_map] at hzero
  rw [dprfSigma, hB.fromShares_eq _ (by simpa using htwo)
    (by simpa [partialAt, Function.comp_def] using hcast), mapError_ok, List.map_map]
  congr 1
  calc atZero (answers.map fun p => ((p.1 : F), f.eval (p.1 : F) • B.hashToCurve p.2))
      = atZero (answers.map fun p => ((p.1 : F), f.eval (p.1 : F) • B.hashToCurve msg +
          f.eval (p.1 : F) • (B.hashToCurve p.2 - B.hashToCurve msg))) := by simp only [hsplit]
    _ = f.eval 0 • B.hashToCurve msg + drift B f msg answers := by
      rw [atZero_add, drift]
      congr 1

/-- One message with another hash is not made up for. -/
theorem drift_ne_zero (hB : B.Lawful) {f : F[X]} {msg : Bytes}
    (hnodup : (answers.map Prod.fst).Nodup) (hu32 : ∀ p ∈ answers, 0 < p.1 ∧ p.1 < 2 ^ 32)
    {p : ℕ × Bytes} (hp : p ∈ answers) (hvalue : f.eval (p.1 : F) ≠ 0)
    (hhash : B.hashToCurve p.2 ≠ B.hashToCurve msg)
    (hothers : ∀ q ∈ answers, q ≠ p → B.hashToCurve q.2 = B.hashToCurve msg) :
    drift B f msg answers ≠ 0 := by
  have hcast := cast_nodup hB hnodup fun p hp => (hu32 p hp).2
  refine atZero_ne_zero (p := ((p.1 : F), _)) ?_ ?_ (List.mem_map_of_mem hp)
    (smul_ne_zero hvalue (sub_ne_zero.mpr hhash)) ?_
  · simpa [Function.comp_def] using hcast
  · intro hmem
    obtain ⟨_, hpoint, hq0⟩ := List.mem_map.mp hmem
    obtain ⟨q, hq, rfl⟩ := List.mem_map.mp hpoint
    have hzero : q.1 = 0 := hB.cast_inj _ _ (hu32 q hq).2 (by norm_num) (by simpa using hq0)
    exact absurd hzero (hu32 q hq).1.ne'
  · intro _ hpoint hne
    obtain ⟨q, hq, rfl⟩ := List.mem_map.mp hpoint
    have hqp : q ≠ p := by
      rintro rfl
      exact hne rfl
    rw [hothers q hq hqp, sub_self, smul_zero]

variable {msg : Bytes}

/-- Once an epoch is ready, the derivation is right or fails, by what the answers to other messages
    add. -/
theorem Collect.finish_drift (hB : B.Lawful) {c : Collect F G₂} {s : F} {e : ℕ}
    (hready : c.ready = some e)
    (hbucket : Multimap.get c.buckets e = answers.map fun p => partialAt B (f e) p.2 p.1)
    (hnodup : (answers.map Prod.fst).Nodup) (hu32 : ∀ p ∈ answers, p.1 < 2 ^ 32)
    (htwo : 2 ≤ answers.length) (hdeg : (f e).degree < answers.length)
    (hmaster : (f e).eval 0 = s) (own : ShardState) :
    let outcome := c.finish B threshold own (some (B.pubkeyToBytes (s • B.generator))) msg
    ((∃ key trace, outcome = .ok (key, trace)) ↔ drift B (f e) msg answers = 0) ∧
      ∀ key trace, outcome = .ok (key, trace) →
        key = sigmaToAppKey B (s • B.hashToCurve msg) := by
  intro outcome
  have hsigma := dprfSigma_drift hB msg hnodup hu32 htwo hdeg
  rw [hmaster] at hsigma
  have hverify := hB.dprfVerify_iff s (s • B.hashToCurve msg + drift B (f e) msg answers) msg
  rw [add_eq_left] at hverify
  by_cases hdrift : drift B (f e) msg answers = 0
  · have hok : outcome = .ok (sigmaToAppKey B (s • B.hashToCurve msg), ⟨own.shardIndex, e,
        (Multimap.get c.contributors e).insertionSort (· ≤ ·)⟩) := by
      simp only [outcome, Collect.finish, hready, hbucket, hsigma, okOr_some, mapError_ok, ok_bind,
        hverify.mpr hdrift]
      rw [hdrift, add_zero]
      rfl
    refine ⟨⟨fun _ => hdrift, fun _ => ⟨_, _, hok⟩⟩, fun key trace hkey => ?_⟩
    exact (Prod.mk.inj (Except.ok.inj (hok.symm.trans hkey))).1.symm
  · have herror : ∀ r, outcome ≠ .ok r := by
      intro r hok
      obtain ⟨epoch, hepoch, hok⟩ := bind_eq_ok.mp hok
      obtain rfl := Option.some.inj (hready.symm.trans (okOr_eq_ok.mp hepoch))
      obtain ⟨sigma, hsum, hok⟩ := bind_eq_ok.mp hok
      obtain ⟨pk, hpk, hok⟩ := bind_eq_ok.mp hok
      obtain ⟨_, hchecked, -⟩ := bind_eq_ok.mp hok
      rw [hbucket, hsigma] at hsum
      cases hsum
      cases hpk
      exact hdrift (hverify.mp (mapError_eq_ok.mp hchecked))
    refine ⟨⟨?_, fun h => absurd h hdrift⟩, fun key trace hok => absurd hok (herror _)⟩
    rintro ⟨key, trace, hok⟩
    exact absurd hok (herror _)

/-- For an honest committee whose members answer the requests that reached them, whatever these
    ask for, in any order and with failures: the answers are taken until an epoch has a threshold of
    distinct indices. The derivation succeeds exactly when what the taken answers to other messages
    add cancels out, and then with the key of the master; one single answer to a message with
    another hash never cancels out, however many nodes are left to answer. -/
theorem altered_requests_iff (hB : B.Lawful) (f : ℕ → F[X]) (s : F) {threshold : ℕ}
    (hthreshold : 2 ≤ threshold) (hdeg : ∀ e, (f e).degree < threshold)
    (hmaster : ∀ e, (f e).eval 0 = s) {own : ShardState} (hown : OnPolynomial B f own)
    {answers : List (Except String Answered)}
    (hanswers : ∀ a, .ok a ∈ answers → OnPolynomial B f a.shard)
    (hpos : 0 < own.shardIndex ∧ ∀ a, .ok a ∈ answers → 0 < a.shard.shardIndex)
    (signature : Bytes) (appId : String) (material : Bytes) :
    let outcome := collectAndDprf B threshold (some own) (.ok signature)
      (answers.map (·.bind (Answered.read B))) (some (B.pubkeyToBytes (s • B.generator)))
      appId material
    let hash := B.hashToCurve (dprfMessage appId material)
    ∃ taken, taken <+: answers.filterMap Except.toOption ∧
      let sources := ⟨own, appId, material⟩ :: taken
      (∀ shorter, shorter <+: taken → shorter ≠ taken →
        ¬ Enough threshold (⟨own, appId, material⟩ :: shorter)) ∧
      (Enough threshold sources ∨ taken = answers.filterMap Except.toOption) ∧
      ((∃ key trace, outcome = .ok (key, trace)) ↔
        ∃ e, threshold ≤ (firstAnswers sources e).length ∧
          drift B (f e) (dprfMessage appId material) (firstAnswers sources e) = 0) ∧
      (∀ key trace, outcome = .ok (key, trace) → key = sigmaToAppKey B (s • hash)) ∧
      ∀ e, threshold ≤ (firstAnswers sources e).length → ∀ p ∈ firstAnswers sources e,
        B.hashToCurve p.2 ≠ hash → (f e).eval (p.1 : F) ≠ 0 →
        (∀ q ∈ firstAnswers sources e, q ≠ p → B.hashToCurve q.2 = hash) →
          ∀ r, outcome ≠ .ok r := by
  intro outcome hash
  let msg := dprfMessage appId material
  let c := Collect.run B threshold
    (Collect.start threshold own (partialAt B (f own.epoch) msg own.shardIndex))
    (answers.map (·.bind (Answered.read B)))
  have houtcome : outcome =
      c.finish B threshold own (some (B.pubkeyToBytes (s • B.generator))) msg :=
    collectAndDprf_eq hB hown signature _ _ appId material
  obtain ⟨taken, htaken, ⟨hmixed, hall⟩, hshort⟩ :=
    (Mixed.start (B := B) (f := f) hthreshold ⟨own, appId, material⟩).run hB answers hanswers
  refine ⟨taken, htaken, hshort, ?_⟩
  cases hready : c.ready with
  | none =>
    have hnot := hmixed.ready_none hready
    have herror : ∀ r, outcome ≠ .ok r := by
      intro r
      rw [houtcome]
      exact Collect.finish_of_none B hready own _ _ r
    refine ⟨.inr (hall hready), ⟨?_, ?_⟩, fun key trace hok => absurd hok (herror _),
      fun e he => absurd ⟨e, he⟩ hnot⟩
    · rintro ⟨key, trace, hok⟩
      exact absurd hok (herror _)
    · rintro ⟨e, he, -⟩
      exact absurd ⟨e, he⟩ hnot
  | some e =>
    obtain ⟨hlength, honly⟩ := hmixed.ready_some e hready
    have hu32 : ∀ p ∈ firstAnswers (⟨own, appId, material⟩ :: taken) e,
        0 < p.1 ∧ p.1 < 2 ^ 32 := by
      intro p hp
      obtain ⟨a, ha, -, rfl⟩ := exists_of_mem_firstAnswers hp
      rcases List.mem_cons.mp ha with rfl | ha
      · exact ⟨hpos.1, hown.index_lt⟩
      · obtain ⟨answer, hanswer, hok⟩ := List.mem_filterMap.mp (htaken.subset ha)
        cases answer with
        | error e => cases hok
        | ok a' =>
          cases hok
          exact ⟨hpos.2 a hanswer, (hanswers a hanswer).index_lt⟩
    have hnodup := firstAnswers_nodup (⟨own, appId, material⟩ :: taken) e
    have hdrift := @Collect.finish_drift _ _ _ _ _ _ _ f threshold _ _ _ _ msg hB c s e hready
      (hmixed.buckets_eq e) hnodup (fun p hp => (hu32 p hp).2) (le_trans hthreshold hlength)
      (lt_of_lt_of_le (hdeg e) (by exact_mod_cast hlength)) (hmaster e) own
    rw [← houtcome] at hdrift
    obtain ⟨hiff, hkey⟩ := hdrift
    refine ⟨.inl ⟨e, hlength⟩, ⟨fun hok => ⟨e, hlength, hiff.mp hok⟩, ?_⟩, hkey, ?_⟩
    · rintro ⟨e', he', hzero⟩
      obtain rfl := honly e' he'
      exact hiff.mpr hzero
    · intro e' he' p hp hhash hvalue hothers r hok
      obtain rfl := honly e' he'
      obtain ⟨key, trace⟩ := r
      exact drift_ne_zero hB hnodup hu32 hp hvalue hhash hothers (hiff.mp ⟨key, trace, hok⟩)

end Loop

/-- The request that reached node 2 was altered. -/
def altered : List (Except String Answered) :=
  [.ok ⟨lineShard 2 1, "other", [7]⟩, .ok ⟨lineShard 3 1, "app", [7]⟩]

/-- Nodes 1 and 3 are a threshold, and node 2 has answered first. -/
theorem altered_requests_iff_line :
    (contributingNodes (lineShard 1 1) [.ok (lineShard 3 1)] 1).card = 2 ∧
      ∀ r, collectAndDprf scalarBlsful 2 (some (lineShard 1 1)) (.ok [])
        (altered.map (·.bind (Answered.read scalarBlsful)))
        (some (scalarBlsful.pubkeyToBytes ((5 : Scalar) • scalarBlsful.generator))) "app" [7] ≠
          .ok r := by
  have hdeg : ∀ e : ℕ, (C 5 + C (e : Scalar) * X).degree < ((2 : ℕ) : WithBot ℕ) := by
    intro e
    rw [add_comm]
    exact lt_of_le_of_lt degree_linear_le (by decide)
  have hanswers : ∀ a, .ok a ∈ altered →
      OnPolynomial scalarBlsful (fun e => C 5 + C (e : Scalar) * X) a.shard ∧
        0 < a.shard.shardIndex := by
    intro a ha
    simp only [altered, List.mem_cons, List.not_mem_nil, or_false, Except.ok.injEq] at ha
    rcases ha with rfl | rfl
    · exact ⟨lineShard_onPolynomial 1 (by norm_num), by decide⟩
    · exact ⟨lineShard_onPolynomial 1 (by norm_num), by decide⟩
  have hhash : scalarBlsful.hashToCurve (dprfMessage "other" [7]) ≠
      scalarBlsful.hashToCurve (dprfMessage "app" [7]) := by decide
  have hvalue : (C 5 + C ((1 : ℕ) : Scalar) * X).eval ((2 : ℕ) : Scalar) ≠ 0 := by
    simp only [eval_add, eval_mul, eval_C, eval_X]
    decide
  obtain ⟨taken, htaken, -, henough, -, -, hspoilt⟩ := altered_requests_iff scalarBlsful_lawful
    (fun e => C 5 + C (e : Scalar) * X) 5 le_rfl hdeg (by simp)
    (lineShard_onPolynomial (i := 1) 1 (by norm_num)) (fun a ha => (hanswers a ha).1)
    ⟨by decide, fun a ha => (hanswers a ha).2⟩ [] "app" [7]
  refine ⟨by decide, ?_⟩
  have hown : ¬ Enough 2 [⟨lineShard 1 1, "app", [7]⟩] := by
    rintro ⟨e, he⟩
    have hone : (firstAnswers [⟨lineShard 1 1, "app", [7]⟩] e).length ≤ 1 := by
      rw [← List.nil_append [_], firstAnswers_append_singleton]
      split <;> simp [noteFirst]
    omega
  rcases List.prefix_cons_iff.mp htaken with rfl | ⟨rest, rfl, hrest⟩
  · rcases henough with henough | hall
    · exact absurd henough hown
    · cases hall
  · obtain ⟨later, hlater, hfirst⟩ : ∃ later : List (ℕ × Bytes),
        (∀ q ∈ later, q.2 = dprfMessage "app" [7]) ∧
        firstAnswers (⟨lineShard 1 1, "app", [7]⟩ :: ⟨lineShard 2 1, "other", [7]⟩ :: rest) 1 =
          (1, dprfMessage "app" [7]) :: (2, dprfMessage "other" [7]) :: later := by
      rcases List.prefix_cons_iff.mp hrest with rfl | ⟨rest, rfl, hnil⟩
      · exact ⟨[], by simp, rfl⟩
      · obtain rfl := List.prefix_nil.mp hnil
        exact ⟨[(3, dprfMessage "app" [7])], by simp, rfl⟩
    refine hspoilt 1 ?_ (2, dprfMessage "other" [7]) ?_ hhash hvalue ?_
    · simp [hfirst]
    · simp [hfirst]
    · intro q hq hne
      rw [hfirst] at hq
      rcases List.mem_cons.mp hq with rfl | hq
      · rfl
      · rw [hlater q ((List.mem_cons.mp hq).resolve_left hne)]

end KmsCluster
