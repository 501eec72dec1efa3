import MltByteps.Lib.Check
import MltByteps.Lib.Lists
import MltByteps.Lib.Machine
import MltByteps.Ps.Meta
import Mathlib.Logic.Function.Basic

/-! `Resender`, which keeps messages until they are acknowledged and drops those it has seen, and
the vans that use it over a channel that may lose, duplicate and reorder messages. -/

namespace Ps

/-! ## The code -/

/-- The bits that `GetKey` puts together. The shifted timestamp is an `int`, so its sign is
extended to 64 bits. -/
def keyBits (sender : ℤ) (msg : Meta) : ℕ :=
  (msg.appId % 2 ^ 16).toNat <<< 48 ||| (sender % 2 ^ 8).toNat <<< 40 |||
    (msg.recver % 2 ^ 8).toNat <<< 32 ||| (Int.bmod (msg.timestamp * 2) (2 ^ 32) % 2 ^ 64).toNat |||
    msg.request.toNat

/-- The sender as `GetKey` finds it on the node `myId`. -/
def Meta.senderAt (myId : ℤ) (msg : Meta) : ℤ := if msg.sender = kEmpty then myId else msg.sender

def getKey (myId : ℤ) (msg : Meta) : Except VanFault ℕ := do
  require .timestamp (msg.timestamp ≠ kEmpty)
  return keyBits (msg.senderAt myId) msg

/-- An entry of `send_buff_`. When it times out is up to the environment. -/
structure Entry where
  msg : Meta
  numRetry : ℕ
deriving DecidableEq, Repr

structure Resender where
  sendBuff : List (ℕ × Entry)
  acked : List ℕ
deriving DecidableEq, Repr

namespace Resender

def maxNumRetry : ℕ := 10

def init : Resender := ⟨[], []⟩

def addOutgoing (myId : ℤ) (msg : Meta) (r : Resender) : Except VanFault Resender :=
  if msg.control.cmd = .ack then .ok r else do
    let key ← getKey myId msg
    if (r.sendBuff.lookup key).isSome then return r
    return { r with sendBuff := r.sendBuff ++ [(key, ⟨msg, 0⟩)] }

/-- `AddIncomming`: its result, and the ACK it sends. -/
def addIncomming (myId : ℤ) (msg : Meta) (r : Resender) :
    Except VanFault (Bool × Resender × Option Meta) :=
  if msg.control.cmd = .terminate then .ok (false, r, none)
  else if msg.control.cmd = .ack then
    .ok (true, { r with sendBuff := r.sendBuff.filter (·.1 ≠ msg.control.msgSig) }, none)
  else do
    let key ← getKey myId msg
    let ack : Meta :=
      { recver := msg.sender, sender := msg.recver, control := { cmd := .ack, msgSig := key } }
    if key ∈ r.acked then return (true, r, some ack)
    return (false, { r with acked := r.acked ++ [key] }, some ack)

/-- `Monitoring` finds that an entry has timed out; the message is to be sent again. -/
def timeout (key : ℕ) (r : Resender) : Except VanFault (Resender × Option Meta) :=
  match r.sendBuff.lookup key with
  | none => .ok (r, none)
  | some ent => do
    require .numRetry (ent.numRetry + 1 < maxNumRetry)
    let sendBuff := r.sendBuff.map fun x =>
      if x.1 = key then (key, { x.2 with numRetry := x.2.numRetry + 1 }) else x
    return ({ r with sendBuff }, some ent.msg)

/-- The messages in `send_buff_` with their keys. -/
def entries (r : Resender) : List (ℕ × Meta) := r.sendBuff.map fun x => (x.1, x.2.msg)

theorem mem_entries_of_lookup {r : Resender} {key : ℕ} {ent : Entry}
    (h : r.sendBuff.lookup key = some ent) : (key, ent.msg) ∈ r.entries := by
  obtain ⟨l₁, l₂, hl, -⟩ := List.lookup_eq_some_iff.mp h
  unfold entries
  rw [hl]
  simp

theorem addOutgoing_spec {myId : ℤ} {msg : Meta} {r r' : Resender}
    (h : r.addOutgoing myId msg = .ok r') :
    r'.acked = r.acked ∧
      (r' = r ∧ (msg.control.cmd = .ack ∨ ∃ m, (keyBits (msg.senderAt myId) msg, m) ∈ r.entries) ∨
        r'.entries = r.entries ++ [(keyBits (msg.senderAt myId) msg, msg)]) := by
  unfold addOutgoing at h
  split_ifs at h with hcmd
  · cases h
    exact ⟨rfl, .inl ⟨rfl, .inl hcmd⟩⟩
  · obtain ⟨key, hkey, h⟩ := bind_eq_ok.mp h
    obtain ⟨-, hkey⟩ := require_bind_eq_ok.mp hkey
    cases hkey
    split_ifs at h with hfound
    · cases h
      obtain ⟨ent, hent⟩ := Option.isSome_iff_exists.mp hfound
      exact ⟨rfl, .inl ⟨rfl, .inr ⟨ent.msg, mem_entries_of_lookup hent⟩⟩⟩
    · cases h
      exact ⟨rfl, .inr (by simp [entries])⟩

theorem entries_subset_addOutgoing {myId : ℤ} {msg : Meta} {r r' : Resender}
    (h : r.addOutgoing myId msg = .ok r') : r.entries ⊆ r'.entries := by
  rcases addOutgoing_spec h with ⟨-, ⟨rfl, -⟩ | hentries⟩
  · exact List.Subset.refl _
  · rw [hentries]
    exact List.subset_append_left _ _

theorem timeout_spec {key : ℕ} {r r' : Resender} {msg : Option Meta}
    (h : r.timeout key = .ok (r', msg)) : r'.acked = r.acked ∧ r'.entries = r.entries ∧
      ∀ m, msg = some m → (key, m) ∈ r.entries := by
  unfold timeout at h
  split at h
  · cases h
    exact ⟨rfl, rfl, fun _ hm => nomatch hm⟩
  · rename_i ent hent
    obtain ⟨-, h⟩ := require_bind_eq_ok.mp h
    cases h
    refine ⟨rfl, ?_, fun m hm => ?_⟩
    · unfold entries
      rw [List.map_map]
      refine List.map_congr_left fun x _ => ?_
      dsimp only [Function.comp]
      split_ifs with hx
      · rw [hx]
      · rfl
    · cases hm
      exact mem_entries_of_lookup hent

theorem addIncomming_spec {myId : ℤ} {msg : Meta} {r r' : Resender} {dropped : Bool}
    {ack : Option Meta} (h : r.addIncomming myId msg = .ok (dropped, r', ack)) :
    (msg.control.cmd = .terminate ∧ dropped = false ∧ r' = r ∧ ack = none) ∨
    (msg.control.cmd = .ack ∧ dropped = true ∧ ack = none ∧ r'.acked = r.acked ∧
      r'.entries = r.entries.filter (·.1 ≠ msg.control.msgSig)) ∨
    ((msg.control.cmd ≠ .terminate ∧ msg.control.cmd ≠ .ack) ∧ r'.entries = r.entries ∧
      (∃ a, ack = some a ∧ a.control.cmd = .ack ∧
        a.control.msgSig = keyBits (msg.senderAt myId) msg) ∧
      (keyBits (msg.senderAt myId) msg ∈ r.acked ∧ dropped = true ∧ r'.acked = r.acked ∨
        keyBits (msg.senderAt myId) msg ∉ r.acked ∧ dropped = false ∧
          r'.acked = r.acked ++ [keyBits (msg.senderAt myId) msg])) := by
  unfold addIncomming at h
  split_ifs at h with hterm hack
  · cases h
    exact .inl ⟨hterm, rfl, rfl, rfl⟩
  · cases h
    refine .inr (.inl ⟨hack, rfl, rfl, rfl, ?_⟩)
    unfold entries
    rw [List.filter_map]
    rfl
  · obtain ⟨key, hkey, h⟩ := bind_eq_ok.mp h
    obtain ⟨-, hkey⟩ := require_bind_eq_ok.mp hkey
    cases hkey
    refine .inr (.inr ⟨⟨hterm, hack⟩, ?_⟩)
    dsimp only at h
    split_ifs at h with hmem
    · cases h
      exact ⟨rfl, ⟨_, rfl, rfl, rfl⟩, .inl ⟨hmem, rfl, rfl⟩⟩
    · cases h
      exact ⟨rfl, ⟨_, rfl, rfl, rfl⟩, .inr ⟨hmem, rfl, rfl⟩⟩

theorem entries_addIncomming_subset {myId : ℤ} {msg : Meta} {r r' : Resender} {dropped : Bool}
    {ack : Option Meta} (h : r.addIncomming myId msg = .ok (dropped, r', ack)) :
    r'.entries ⊆ r.entries := by
  rcases addIncomming_spec h with ⟨-, -, rfl, -⟩ | ⟨-, -, -, -, hentries⟩ | ⟨-, hentries, -⟩
  · exact List.Subset.refl _
  · rw [hentries]
    exact List.filter_sublist.subset
  · rw [hentries]
    exact List.Subset.refl _

theorem addIncomming_ack {myId : ℤ} {msg : Meta} {r r' : Resender} {dropped : Bool}
    {ack : Option Meta} (h : r.addIncomming myId msg = .ok (dropped, r', ack)) (a : Meta)
    (ha : ack = some a) : a.control.cmd = .ack := by
  rcases addIncomming_spec h with ⟨-, -, -, rfl⟩ | ⟨-, -, rfl, -⟩ | ⟨-, -, ⟨a', rfl, hcmd, -⟩, -⟩
  · exact nomatch ha
  · exact nomatch ha
  · cases ha
    exact hcmd

end Resender

/-! ## Vans and a channel -/

/-- The van of a node: the messages of which `Send` has done `SendMsg` and not yet `AddOutgoing`,
those that the monitor has still to send, the ACKs that the receiving thread has still to send,
and as a history the messages that were handed on for processing. -/
structure Endpoint where
  resender : Option Resender
  sending : List Meta
  resend : List Meta
  acks : List Meta
  passed : List Meta
deriving DecidableEq

/-- `net` holds the messages under way as their receivers see them. `sent` is the history of the
messages that nodes have sent. -/
structure Network where
  endpoint : ℤ → Endpoint
  net : List Meta
  sent : List (ℤ × Meta)

inductive NetAction where
  -- `Start` creates the resender of a node.
  | create (node : ℤ)
  -- A thread of a node calls `Send`: `SendMsg`.
  | send (node : ℤ) (msg : Meta)
  -- The second part of a `Send`.
  | addOutgoing (node : ℤ) (i : ℕ)
  -- An entry of a node times out.
  | timeout (node : ℤ) (key : ℕ)
  -- The monitor of a node calls `Send`.
  | resend (node : ℤ) (i : ℕ)
  -- A message reaches the receiving thread of its receiver.
  | receive (i : ℕ)
  -- The receiving thread of a node sends an ACK.
  | sendAck (node : ℤ) (i : ℕ)
  -- `Stop` sends `TERMINATE` to the node itself.
  | stop (node : ℤ)
  | lose (i : ℕ)
  | duplicate (i : ℕ)

namespace Network

def init : Network := ⟨fun _ => ⟨none, [], [], [], []⟩, [], []⟩

def setEndpoint (node : ℤ) (e : Endpoint) (s : Network) : Network :=
  { s with endpoint := Function.update s.endpoint node e }

/-- `SendMsg`, before `AddOutgoing`. -/
def sendMsg (node : ℤ) (msg : Meta) (s : Network) : Network :=
  { s.setEndpoint node { s.endpoint node with sending := (s.endpoint node).sending ++ [msg] } with
    net := s.net ++ [msg.from node] }

def step (s : Network) : NetAction → Except VanFault Network
  | .create node =>
    .ok (s.setEndpoint node { s.endpoint node with
      resender := some ((s.endpoint node).resender.getD .init) })
  | .send node msg => .ok { s.sendMsg node msg with sent := s.sent ++ [(node, msg)] }
  | .addOutgoing node i =>
    let e := s.endpoint node
    match e.sending[i]? with
    | none => .ok s
    | some msg => do
      let resender ← e.resender.mapM (·.addOutgoing node msg)
      return s.setEndpoint node { e with resender, sending := e.sending.eraseIdx i }
  | .timeout node key =>
    let e := s.endpoint node
    match e.resender with
    | none => .ok s
    | some r => do
      let (r, msg) ← r.timeout key
      return s.setEndpoint node { e with resender := some r, resend := e.resend ++ msg.toList }
  | .resend node i =>
    let e := s.endpoint node
    match e.resend[i]? with
    | none => .ok s
    | some msg =>
      .ok (sendMsg node msg (s.setEndpoint node { e with resend := e.resend.eraseIdx i }))
  | .receive i =>
    match s.net[i]? with
    | none => .ok s
    | some msg =>
      let e := s.endpoint msg.recver
      let s := { s with net := s.net.eraseIdx i }
      match e.resender with
      | none => .ok (s.setEndpoint msg.recver { e with passed := e.passed ++ [msg] })
      | some r => do
        let (dropped, r, ack) ← r.addIncomming msg.recver msg
        return s.setEndpoint msg.recver { e with
          resender := some r
          acks := e.acks ++ ack.toList
          passed := e.passed ++ if dropped then [] else [msg] }
  | .sendAck node i =>
    let e := s.endpoint node
    match e.acks[i]? with
    | none => .ok s
    | some ack =>
      .ok { s.setEndpoint node { e with acks := e.acks.eraseIdx i } with
        net := s.net ++ [ack.from node] }
  | .stop node =>
    .ok { s with net := s.net ++
      [{ recver := node, sender := node, customerId := 0, control := { cmd := .terminate } }] }
  | .lose i => .ok { s with net := s.net.eraseIdx i }
  | .duplicate i => .ok { s with net := s.net ++ s.net[i]?.toList }

end Network

def network : Machine Network NetAction VanFault := ⟨.init, Network.step⟩

/-! ## What a step can do -/

/-- The endpoint of a node after `AddIncomming`. -/
def Endpoint.received (e : Endpoint) (r : Resender) (ack : Option Meta) (dropped : Bool)
    (msg : Meta) : Endpoint :=
  { e with
    resender := some r
    acks := e.acks ++ ack.toList
    passed := e.passed ++ if dropped then [] else [msg] }

namespace Network

inductive Effect (s : Network) : NetAction → Network → Prop
  | skip (a : NetAction) : Effect s a s
  | create (node : ℤ) : Effect s (.create node) (s.setEndpoint node { s.endpoint node with
      resender := some ((s.endpoint node).resender.getD .init) })
  | send (node : ℤ) (msg : Meta) :
    Effect s (.send node msg) { s.sendMsg node msg with sent := s.sent ++ [(node, msg)] }
  | buffer {node : ℤ} {i : ℕ} {msg : Meta} {r r' : Resender} :
    (s.endpoint node).sending[i]? = some msg → (s.endpoint node).resender = some r →
    r.addOutgoing node msg = .ok r' →
    Effect s (.addOutgoing node i) (s.setEndpoint node { s.endpoint node with
      resender := some r', sending := (s.endpoint node).sending.eraseIdx i })
  | forget {node : ℤ} {i : ℕ} {msg : Meta} :
    (s.endpoint node).sending[i]? = some msg → (s.endpoint node).resender = none →
    Effect s (.addOutgoing node i) (s.setEndpoint node { s.endpoint node with
      sending := (s.endpoint node).sending.eraseIdx i })
  | timeout {node : ℤ} {key : ℕ} {r r' : Resender} {msg : Option Meta} :
    (s.endpoint node).resender = some r → r.timeout key = .ok (r', msg) →
    Effect s (.timeout node key) (s.setEndpoint node { s.endpoint node with
      resender := some r', resend := (s.endpoint node).resend ++ msg.toList })
  | resend {node : ℤ} {i : ℕ} {msg : Meta} :
    (s.endpoint node).resend[i]? = some msg →
    Effect s (.resend node i) { s.setEndpoint node { s.endpoint node with
        resend := (s.endpoint node).resend.eraseIdx i
        sending := (s.endpoint node).sending ++ [msg] } with
      net := s.net ++ [msg.from node] }
  | pass {i : ℕ} {msg : Meta} :
    s.net[i]? = some msg → (s.endpoint msg.recver).resender = none →
    Effect s (.receive i) { s.setEndpoint msg.recver { s.endpoint msg.recver with
        passed := (s.endpoint msg.recver).passed ++ [msg] } with
      net := s.net.eraseIdx i }
  | receive {i : ℕ} {msg : Meta} {r r' : Resender} {dropped : Bool} {ack : Option Meta} :
    s.net[i]? = some msg → (s.endpoint msg.recver).resender = some r →
    r.addIncomming msg.recver msg = .ok (dropped, r', ack) →
    Effect s (.receive i) { s.setEndpoint msg.recver
        ((s.endpoint msg.recver).received r' ack dropped msg) with
      net := s.net.eraseIdx i }
  | sendAck {node : ℤ} {i : ℕ} {ack : Meta} :
    (s.endpoint node).acks[i]? = some ack →
    Effect s (.sendAck node i) { s.setEndpoint node { s.endpoint node with
        acks := (s.endpoint node).acks.eraseIdx i } with
      net := s.net ++ [ack.from node] }
  | channel (a : NetAction) {net : List Meta} :
    (∀ m ∈ net, m ∈ s.net ∨ m.control.cmd = .terminate) → Effect s a { s with net }

section Effect

variable {s s' : Network} {node : ℤ} {i key : ℕ}

theorem effect_addOutgoing (h : s.step (.addOutgoing node i) = .ok s') :
    s.Effect (.addOutgoing node i) s' := by
  rw [step] at h
  split at h
  · cases h
    exact .skip _
  · next msg hmsg =>
    obtain ⟨o, ho, h⟩ := bind_eq_ok.mp h
    cases h
    rcases hr : (s.endpoint node).resender with _ | r
    · rw [hr] at ho
      cases ho
      rw [← hr]
      exact .forget hmsg hr
    · rw [hr] at ho
      obtain ⟨r', hr', ho⟩ := bind_eq_ok.mp ho
      cases ho
      exact .buffer hmsg hr hr'

theorem effect_timeout (h : s.step (.timeout node key) = .ok s') :
    s.Effect (.timeout node key) s' := by
  rw [step] at h
  dsimp only at h
  split at h
  · cases h
    exact .skip _
  · next r hr =>
    obtain ⟨⟨r', m⟩, ht, h⟩ := bind_eq_ok.mp h
    cases h
    exact .timeout hr ht

theorem effect_resend (h : s.step (.resend node i) = .ok s') : s.Effect (.resend node i) s' := by
  rw [step] at h
  split at h
  · cases h
    exact .skip _
  · next msg hmsg =>
    cases h
    unfold sendMsg setEndpoint
    dsimp only
    rw [Function.update_self, Function.update_idem]
    exact .resend hmsg

theorem effect_receive (h : s.step (.receive i) = .ok s') : s.Effect (.receive i) s' := by
  rw [step] at h
  split at h
  · cases h
    exact .skip _
  · next msg hmsg =>
    dsimp only at h
    split at h
    · next hr =>
      cases h
      exact .pass hmsg hr
    · next r hr =>
      obtain ⟨⟨dropped, r', ack⟩, hin, h⟩ := bind_eq_ok.mp h
      cases h
      exact .receive hmsg hr hin

theorem effect_sendAck (h : s.step (.sendAck node i) = .ok s') :
    s.Effect (.sendAck node i) s' := by
  rw [step] at h
  split at h
  · cases h
    exact .skip _
  · next ack hack =>
    cases h
    exact .sendAck hack

end Effect

theorem effect_of_step {s s' : Network} {a : NetAction} (h : s.step a = .ok s') :
    s.Effect a s' := by
  cases a with
  | create node =>
    cases h
    exact .create node
  | send node msg =>
    cases h
    exact .send node msg
  | addOutgoing node i => exact effect_addOutgoing h
  | timeout node key => exact effect_timeout h
  | resend node i => exact effect_resend h
  | receive i => exact effect_receive h
  | sendAck node i => exact effect_sendAck h
  | stop node =>
    cases h
    refine .channel _ fun m hm => ?_
    rcases List.mem_append.mp hm with hm | hm
    · exact .inl hm
    · rw [List.mem_singleton.mp hm]
      exact .inr rfl
  | lose i =>
    cases h
    exact .channel _ fun m hm => .inl (List.mem_of_mem_eraseIdx hm)
  | duplicate i =>
    cases h
    refine .channel _ fun m hm => .inl ?_
    rcases List.mem_append.mp hm with hm | hm
    · exact hm
    · exact List.mem_of_getElem? (Option.mem_toList.mp hm)

theorem forall_setEndpoint {s : Network} {node : ℤ} {e : Endpoint} {P : ℤ → Endpoint → Prop}
    (h : ∀ v, P v (s.endpoint v)) (he : P node e) (v : ℤ) :
    P v ((s.setEndpoint node e).endpoint v) :=
  (Function.forall_update_iff s.endpoint P).mpr ⟨he, fun v _ => h v⟩ v

end Network

end Ps
