import KmsCluster.Auth
import KmsCluster.Lib.SelfDelimiting

/-!
# The messages that nodes sign

Model of the messages of `src/crypto.rs` that a node key signs: requests, and responses under ECIES.
The derivation message is the one of `Crypto`.

## Main results

- `Response.msg_unambiguous`: no two responses, and no response and request, share their message.
- `dprfMessage_unambiguous`: no two inputs of a derivation share their message, and no message
  begins with another one.
-/

namespace KmsCluster

open BigEndian Encoding

-- ════════════════════════════════════════════════════════════════════════
-- Bytes of texts and addresses
-- ════════════════════════════════════════════════════════════════════════

theorem utf8_inj {s t : String} (h : utf8 s = utf8 t) : s = t := by
  apply String.toByteArray_inj.mp
  exact ByteArray.ext (Array.toList_inj.mp h)

theorem utf8_append (s t : String) : utf8 (s ++ t) = utf8 s ++ utf8 t := by
  simp [utf8]

def addressBytes (addr : Address) : Bytes := beBytes 20 addr.toNat

theorem selfDelimiting_addressBytes : SelfDelimiting (fun _ => True) addressBytes := by
  intro a b _ _ r s heq
  have hlt (addr : Address) : addr.toNat < 256 ^ 20 := addr.isLt
  obtain ⟨haddr, hrest⟩ := selfDelimiting_beBytes 20 _ _ (hlt a) (hlt b) r s heq
  exact ⟨BitVec.eq_of_toNat_eq haddr, hrest⟩

theorem selfDelimiting_u32 :
    SelfDelimiting (fun _ => True) fun n : UInt32 => beBytes 4 n.toNat := by
  intro a b _ _ r s heq
  have hlt (n : UInt32) : n.toNat < 256 ^ 4 := n.toNat_lt
  obtain ⟨hn, hrest⟩ := selfDelimiting_beBytes 4 _ _ (hlt a) (hlt b) r s heq
  exact ⟨UInt32.toNat_inj.mp hn, hrest⟩

theorem selfDelimiting_u64 :
    SelfDelimiting (fun _ => True) fun n : UInt64 => beBytes 8 n.toNat := by
  intro a b _ _ r s heq
  have hlt (n : UInt64) : n.toNat < 256 ^ 8 := n.toNat_lt
  obtain ⟨hn, hrest⟩ := selfDelimiting_beBytes 8 _ _ (hlt a) (hlt b) r s heq
  exact ⟨UInt64.toNat_inj.mp hn, hrest⟩

-- ════════════════════════════════════════════════════════════════════════
-- Requests and responses
-- ════════════════════════════════════════════════════════════════════════

/-- What `sign_request` signs. -/
def signRequestMsg (method : String) (timestamp : ℤ) : Bytes :=
  utf8 ("kms:" ++ method ++ ":" ++ toString timestamp)

/-- Domain-separated message a cluster ECIES response is signed over. -/
def eciesResponseMsg (method : String) (callerAddr : Address) (metadata ciphertext : Bytes) :
    Bytes :=
  utf8 "kms-resp:" ++ utf8 method ++ utf8 ":" ++ addressBytes callerAddr ++ metadata ++ ciphertext

/-- Message signed over a GetDprfPartial response. -/
def dprfPartialSigningMsg (callerAddr : Address) (shardIndex : UInt32) (epoch : UInt64)
    (ciphertext : Bytes) : Bytes :=
  eciesResponseMsg "GetDprfPartial" callerAddr
    (beBytes 4 shardIndex.toNat ++ beBytes 8 epoch.toNat) ciphertext

/-- Message signed over a shard response. -/
def shardSigningMsg (method : String) (callerAddr : Address) (shardIndex : UInt32)
    (ciphertext : Bytes) : Bytes :=
  eciesResponseMsg method callerAddr (beBytes 4 shardIndex.toNat) ciphertext

/-- The calls that `shard_signing_msg` serves. -/
inductive ShardMethod where
  | requestShard
  | getShardContribution
  deriving DecidableEq

def ShardMethod.name : ShardMethod → String
  | requestShard => "RequestShard"
  | getShardContribution => "GetShardContribution"

/-- A response that a node signs, with everything its signature covers. -/
inductive Response where
  | dprfPartial (callerAddr : Address) (shardIndex : UInt32) (epoch : UInt64) (ciphertext : Bytes)
  | shard (method : ShardMethod) (callerAddr : Address) (shardIndex : UInt32) (ciphertext : Bytes)
  deriving DecidableEq

namespace Response

def method : Response → String
  | dprfPartial .. => "GetDprfPartial"
  | shard method .. => method.name

def msg : Response → Bytes
  | dprfPartial callerAddr shardIndex epoch ciphertext =>
    dprfPartialSigningMsg callerAddr shardIndex epoch ciphertext
  | shard method callerAddr shardIndex ciphertext =>
    shardSigningMsg method.name callerAddr shardIndex ciphertext

/-- What follows the method in a message. -/
def body : Response → Bytes
  | dprfPartial callerAddr shardIndex epoch ciphertext =>
    addressBytes callerAddr ++ (beBytes 4 shardIndex.toNat ++ (beBytes 8 epoch.toNat ++ ciphertext))
  | shard _ callerAddr shardIndex ciphertext =>
    addressBytes callerAddr ++ (beBytes 4 shardIndex.toNat ++ ciphertext)

theorem msg_eq (response : Response) :
    response.msg = utf8 "kms-resp:" ++ ((utf8 response.method ++ utf8 ":") ++ response.body) := by
  cases response with
  | dprfPartial => simp [msg, dprfPartialSigningMsg, eciesResponseMsg, body, method]
  | shard => simp [msg, shardSigningMsg, eciesResponseMsg, body, method]

theorem colon_not_mem_method (response : Response) : 0x3A ∉ utf8 response.method := by
  cases response with
  | dprfPartial =>
    have hname : 0x3A ∉ utf8 "GetDprfPartial" := by decide
    exact hname
  | shard method =>
    have hname : 0x3A ∉ utf8 method.name := by cases method <;> decide
    exact hname

/-- The text up to the second colon gives the method, as no method holds a colon. -/
theorem method_body_of_msg_eq {a b : Response} (h : a.msg = b.msg) :
    a.method = b.method ∧ a.body = b.body := by
  rw [msg_eq, msg_eq] at h
  have hcolon : utf8 ":" = [0x3A] := by decide
  rw [hcolon] at h
  obtain ⟨hmethod, hbody⟩ := SelfDelimiting.terminated 0x3A _ _ (colon_not_mem_method a)
    (colon_not_mem_method b) _ _ (List.append_cancel_left h)
  exact ⟨utf8_inj hmethod, hbody⟩

theorem name_ne_dprf (method : ShardMethod) : method.name ≠ "GetDprfPartial" := by
  cases method <;> decide

theorem name_inj {method method' : ShardMethod} (h : method.name = method'.name) :
    method = method' := by
  revert h
  cases method <;> cases method' <;> decide

theorem msg_inj {a b : Response} (h : a.msg = b.msg) : a = b := by
  obtain ⟨hmethod, hbody⟩ := method_body_of_msg_eq h
  cases a with
  | dprfPartial callerAddr shardIndex epoch ciphertext =>
    cases b with
    | dprfPartial callerAddr' shardIndex' epoch' ciphertext' =>
      simp only [body] at hbody
      obtain ⟨rfl, hindex⟩ := selfDelimiting_addressBytes _ _ trivial trivial _ _ hbody
      obtain ⟨rfl, hepoch⟩ := selfDelimiting_u32 _ _ trivial trivial _ _ hindex
      obtain ⟨rfl, rfl⟩ := selfDelimiting_u64 _ _ trivial trivial _ _ hepoch
      rfl
    | shard method => exact absurd hmethod.symm (name_ne_dprf method)
  | shard method callerAddr shardIndex ciphertext =>
    cases b with
    | dprfPartial => exact absurd hmethod (name_ne_dprf method)
    | shard method' callerAddr' shardIndex' ciphertext' =>
      obtain rfl := name_inj hmethod
      simp only [body] at hbody
      obtain ⟨rfl, hindex⟩ := selfDelimiting_addressBytes _ _ trivial trivial _ _ hbody
      obtain ⟨rfl, rfl⟩ := selfDelimiting_u32 _ _ trivial trivial _ _ hindex
      rfl

/-- The fourth byte is a dash in a response and a colon in a request. -/
theorem msg_ne_signRequestMsg (response : Response) (method : String) (timestamp : ℤ) :
    response.msg ≠ signRequestMsg method timestamp := by
  intro h
  have hresponse : response.msg[3]? = some 0x2D := by
    have hdomain : utf8 "kms-resp:" = [0x6B, 0x6D, 0x73, 0x2D, 0x72, 0x65, 0x73, 0x70, 0x3A] := by
      decide
    rw [msg_eq, hdomain]
    rfl
  have hrequest : (signRequestMsg method timestamp)[3]? = some 0x3A := by
    have hdomain : utf8 "kms:" = [0x6B, 0x6D, 0x73, 0x3A] := by decide
    rw [signRequestMsg, utf8_append, utf8_append, utf8_append, hdomain]
    rfl
  rw [h, hrequest] at hresponse
  cases hresponse

/-- Over all callers, indices, epochs and ciphertexts: the messages of two responses are equal only
    if the responses are, and no response has the message of a request. -/
theorem msg_unambiguous : (∀ a b : Response, a.msg = b.msg → a = b) ∧
    ∀ (response : Response) (method : String) (timestamp : ℤ),
      response.msg ≠ signRequestMsg method timestamp :=
  ⟨fun _ _ => msg_inj, msg_ne_signRequestMsg⟩

end Response

-- ════════════════════════════════════════════════════════════════════════
-- Derivations
-- ════════════════════════════════════════════════════════════════════════

theorem dprfMessage_eq_frames (appId : String) (material : Bytes) :
    dprfMessage appId material = dprfDst ++ (frame 8 (utf8 appId) ++ frame 8 material) := by
  simp [dprfMessage, frame]

theorem selfDelimiting_dprfMessage : SelfDelimiting
    (fun p : String × Bytes => (utf8 p.1).length < 2 ^ 64 ∧ p.2.length < 2 ^ 64)
    (fun p => dprfMessage p.1 p.2) := by
  intro p q hp hq r s heq
  simp only [dprfMessage_eq_frames] at heq
  have hframes := ((SelfDelimiting.frame 8).append (SelfDelimiting.frame 8)).literal dprfDst
  obtain ⟨hpair, hrest⟩ := hframes (utf8 p.1, p.2) (utf8 q.1, q.2) hp hq r s heq
  rw [Prod.mk.injEq] at hpair
  exact ⟨Prod.ext (utf8_inj hpair.1) hpair.2, hrest⟩

/-- For all inputs whose lengths fit in `u64`: equal messages come from equal inputs, and no message
    is a proper prefix of another. -/
theorem dprfMessage_unambiguous {appId appId' : String} {material material' : Bytes}
    (happ : (utf8 appId).length < 2 ^ 64) (hmaterial : material.length < 2 ^ 64)
    (happ' : (utf8 appId').length < 2 ^ 64) (hmaterial' : material'.length < 2 ^ 64) :
    (dprfMessage appId material = dprfMessage appId' material' →
      appId = appId' ∧ material = material') ∧
    (dprfMessage appId material <+: dprfMessage appId' material' →
      dprfMessage appId material = dprfMessage appId' material') := by
  have hp : (utf8 (appId, material).1).length < 2 ^ 64 ∧ (appId, material).2.length < 2 ^ 64 :=
    ⟨happ, hmaterial⟩
  have hq : (utf8 (appId', material').1).length < 2 ^ 64 ∧ (appId', material').2.length < 2 ^ 64 :=
    ⟨happ', hmaterial'⟩
  constructor
  · intro heq
    exact Prod.mk.inj (selfDelimiting_dprfMessage.inj hp hq heq)
  · intro hpre
    obtain ⟨rfl, rfl⟩ := Prod.mk.inj (selfDelimiting_dprfMessage.eq_of_prefix hp hq hpre)
    rfl

/-- Inputs that only a length prefix tells apart. -/
theorem dprfMessage_unambiguous_boundary : dprfMessage "ab" [0x63] ≠ dprfMessage "a" [0x62, 0x63] ∧
    ¬ dprfMessage "ab" [0x63] <+: dprfMessage "a" [0x62, 0x63] := by
  have h := @dprfMessage_unambiguous "ab" "a" [0x63] [0x62, 0x63] (by decide) (by decide)
    (by decide) (by decide)
  have hne : dprfMessage "ab" [0x63] ≠ dprfMessage "a" [0x62, 0x63] := by
    intro heq
    exact absurd (h.1 heq).1 (by decide)
  exact ⟨hne, fun hpre => hne (h.2 hpre)⟩

end KmsCluster
