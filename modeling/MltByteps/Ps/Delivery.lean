import MltByteps.Ps.Resender
import Mathlib.Data.List.Perm.Basic

/-! With live resenders on both ends every message is handed on at most once, and it is kept by
its sender until it has been. -/

namespace Ps
open Lists

variable {s s' : Network} {a : NetAction}

/-! ## Where messages come from -/

/-- A `TERMINATE`, an ACK or a message that was sent, as its receiver sees it. -/
def Known (sent : List (ℤ × Meta)) (m : Meta) : Prop :=
  m.control.cmd = .terminate ∨ m.control.cmd = .ack ∨ ∃ x ∈ sent, m = x.2.from x.1

structure Endpoint.Genuine (sent : List (ℤ × Meta)) (node : ℤ) (e : Endpoint) : Prop where
  acks : ∀ a ∈ e.acks, a.control.cmd = .ack
  buffered : ∀ x ∈ (e.resender.getD .init).entries,
    (node, x.2) ∈ sent ∧ x.1 = keyBits (x.2.senderAt node) x.2
  sending : ∀ m ∈ e.sending, (node, m) ∈ sent
  resend : ∀ m ∈ e.resend, (node, m) ∈ sent
  passed : ∀ m ∈ e.passed, Known sent m ∧ m.recver = node

theorem Known.mono {sent sent' : List (ℤ × Meta)} {m : Meta} (h : Known sent m)
    (hsent : sent ⊆ sent') : Known sent' m :=
  h.imp_right (Or.imp_right fun ⟨x, hx, hm⟩ => ⟨x, hsent hx, hm⟩)

theorem Endpoint.Genuine.mono {sent sent' : List (ℤ × Meta)} {node : ℤ} {e : Endpoint}
    (h : e.Genuine sent node) (hsent : sent ⊆ sent') : e.Genuine sent' node where
  acks := h.acks
  buffered x hx := ⟨hsent (h.buffered x hx).1, (h.buffered x hx).2⟩
  sending m hm := hsent (h.sending m hm)
  resend m hm := hsent (h.resend m hm)
  passed m hm := ⟨(h.passed m hm).1.mono hsent, (h.passed m hm).2⟩

namespace Network

/-- Nobody makes up messages. -/
structure Genuine (s : Network) : Prop where
  net : ∀ m ∈ s.net, Known s.sent m
  endpoint : ∀ node, (s.endpoint node).Genuine s.sent node

theorem genuine_init : init.Genuine where
  net _ h := nomatch h
  endpoint _ := by constructor <;> simp [init, Resender.init, Resender.entries]

theorem forall_mem_concat {α : Type} {p : α → Prop} {l : List α} {x : α} (hl : ∀ y ∈ l, p y)
    (hx : p x) : ∀ y ∈ l ++ [x], p y :=
  List.forall_mem_append.mpr ⟨hl, List.forall_mem_singleton.mpr hx⟩

theorem Genuine.effect (h : s.Genuine) (hs : s.Effect a s') : s'.Genuine := by
  cases hs with
  | skip => exact h
  | create node =>
    have he := h.endpoint node
    exact ⟨h.net, forall_setEndpoint h.endpoint
      ⟨he.acks, he.buffered, he.sending, he.resend, he.passed⟩⟩
  | send node msg =>
    have hsent : s.sent ⊆ s.sent ++ [(node, msg)] := List.subset_append_left _ _
    have hnew : (node, msg) ∈ s.sent ++ [(node, msg)] := by simp
    have he := (h.endpoint node).mono hsent
    refine ⟨forall_mem_concat (fun m hm => (h.net m hm).mono hsent) (.inr (.inr ⟨_, hnew, rfl⟩)),
      forall_setEndpoint (fun v => (h.endpoint v).mono hsent) ?_⟩
    exact ⟨he.acks, he.buffered, forall_mem_concat he.sending hnew, he.resend, he.passed⟩
  | @buffer node i msg r r' hi hr hr' =>
    have he := h.endpoint node
    have hbuf := he.buffered
    rw [hr] at hbuf
    refine ⟨h.net, forall_setEndpoint h.endpoint ⟨he.acks, fun x hx => ?_,
      fun m hm => he.sending m (List.mem_of_mem_eraseIdx hm), he.resend, he.passed⟩⟩
    change x ∈ r'.entries at hx
    rcases (Resender.addOutgoing_spec hr').2 with ⟨rfl, -⟩ | hentries
    · exact hbuf x hx
    · rw [hentries, List.mem_append, List.mem_singleton] at hx
      rcases hx with hx | rfl
      · exact hbuf x hx
      · exact ⟨he.sending msg (List.mem_of_getElem? hi), rfl⟩
  | @forget node i msg hi hr =>
    have he := h.endpoint node
    exact ⟨h.net, forall_setEndpoint h.endpoint ⟨he.acks, he.buffered,
      fun m hm => he.sending m (List.mem_of_mem_eraseIdx hm), he.resend, he.passed⟩⟩
  | @timeout node key r r' msg hr ht =>
    have he := h.endpoint node
    have hbuf := he.buffered
    rw [hr] at hbuf
    obtain ⟨-, hentries, hmsg⟩ := Resender.timeout_spec ht
    refine ⟨h.net, forall_setEndpoint h.endpoint ⟨he.acks, ?_, he.sending, fun m hm => ?_,
      he.passed⟩⟩
    · change ∀ x ∈ r'.entries, _
      rw [hentries]
      exact hbuf
    · rcases List.mem_append.mp hm with hm | hm
      · exact he.resend m hm
      · exact (hbuf _ (hmsg m (Option.mem_toList.mp hm))).1
  | @resend node i msg hi =>
    have he := h.endpoint node
    have hmsg := he.resend msg (List.mem_of_getElem? hi)
    refine ⟨forall_mem_concat h.net (.inr (.inr ⟨_, hmsg, rfl⟩)),
      forall_setEndpoint h.endpoint ?_⟩
    exact ⟨he.acks, he.buffered, forall_mem_concat he.sending hmsg,
      fun m hm => he.resend m (List.mem_of_mem_eraseIdx hm), he.passed⟩
  | @pass i msg hi hr =>
    have he := h.endpoint msg.recver
    have hpassed := forall_mem_concat he.passed ⟨h.net msg (List.mem_of_getElem? hi), rfl⟩
    exact ⟨fun m hm => h.net m (List.mem_of_mem_eraseIdx hm), forall_setEndpoint h.endpoint
      ⟨he.acks, he.buffered, he.sending, he.resend, hpassed⟩⟩
  | @receive i msg r r' dropped ack hi hr hin =>
    have he := h.endpoint msg.recver
    have hbuf := he.buffered
    rw [hr] at hbuf
    refine ⟨fun m hm => h.net m (List.mem_of_mem_eraseIdx hm), forall_setEndpoint h.endpoint
      ⟨fun a ha => ?_, fun x hx => hbuf x (Resender.entries_addIncomming_subset hin hx), he.sending,
        he.resend, fun m hm => ?_⟩⟩
    · rcases List.mem_append.mp ha with ha | ha
      · exact he.acks a ha
      · exact Resender.addIncomming_ack hin a (Option.mem_toList.mp ha)
    · cases dropped
      · exact forall_mem_concat he.passed ⟨h.net msg (List.mem_of_getElem? hi), rfl⟩ m hm
      · exact he.passed m (by simpa [Endpoint.received] using hm)
  | @sendAck node i ack hi =>
    have he := h.endpoint node
    have hack := he.acks ack (List.mem_of_getElem? hi)
    exact ⟨forall_mem_concat h.net (.inr (.inl hack)), forall_setEndpoint h.endpoint
      ⟨fun a ha => he.acks a (List.mem_of_mem_eraseIdx ha), he.buffered, he.sending, he.resend,
        he.passed⟩⟩
  | channel a hnet => exact ⟨fun m hm => (hnet m hm).elim (h.net m) .inl, h.endpoint⟩

end Network

/-! ## Messages that are dropped -/

/-- The keys in `acked_`. -/
def Endpoint.keys (e : Endpoint) : List ℕ := (e.resender.getD .init).acked

/-- The keys that the node knows are those of messages it has handed on. For messages that satisfy
`p` it knows all of them, and no two of these messages have one key. -/
structure Endpoint.Once (p : Meta → Bool) (node : ℤ) (e : Endpoint) : Prop where
  acked : ∀ k ∈ e.keys,
    ∃ m ∈ e.passed, m.control.cmd ≠ .terminate ∧ keyBits (m.senderAt node) m = k
  known : ∀ m ∈ e.passed, p m = true → keyBits (m.senderAt node) m ∈ e.keys
  once : ((e.passed.filter p).map fun m => keyBits (m.senderAt node) m).Nodup

section Once

variable {p : Meta → Bool} {node : ℤ} {e e' : Endpoint} {msg : Meta}

theorem Endpoint.once_init (p : Meta → Bool) (node : ℤ) :
    (Network.init.endpoint node).Once p node :=
  ⟨(fun _ h => nomatch h), (fun _ h => nomatch h), List.nodup_nil⟩

theorem Endpoint.Once.congr (h : e.Once p node) (hpassed : e'.passed = e.passed)
    (hkeys : e'.keys = e.keys) : e'.Once p node := by
  refine ⟨?_, ?_, ?_⟩
  · rw [hpassed, hkeys]
    exact h.acked
  · rw [hpassed, hkeys]
    exact h.known
  · rw [hpassed]
    exact h.once

theorem Endpoint.Once.pass (h : e.Once p node) (noted : Prop)
    (hpassed : e'.passed = e.passed ++ [msg])
    (hkeys : ∀ k, k ∈ e'.keys ↔ k ∈ e.keys ∨ noted ∧ k = keyBits (msg.senderAt node) msg)
    (hnoted : noted → msg.control.cmd ≠ .terminate)
    (hp : p msg = true → noted ∧ keyBits (msg.senderAt node) msg ∉ e.keys) : e'.Once p node := by
  refine ⟨fun k hk => ?_, fun m hm hpm => ?_, ?_⟩
  · rw [hpassed]
    rcases (hkeys k).mp hk with hk | ⟨hn, rfl⟩
    · obtain ⟨m, hm, hmk⟩ := h.acked k hk
      exact ⟨m, List.mem_append_left _ hm, hmk⟩
    · exact ⟨msg, List.mem_append_right _ (List.mem_singleton_self _), hnoted hn, rfl⟩
  · rw [hpassed, List.mem_append, List.mem_singleton] at hm
    rcases hm with hm | rfl
    · exact (hkeys _).mpr (.inl (h.known m hm hpm))
    · exact (hkeys _).mpr (.inr ⟨(hp hpm).1, rfl⟩)
  · rw [hpassed, List.filter_append, List.map_append]
    by_cases hpm : p msg = true
    · rw [List.filter_cons_of_pos hpm, List.filter_nil]
      refine Lists.nodup_append_singleton h.once fun hk => (hp hpm).2 ?_
      obtain ⟨m, hm, hmk⟩ := List.mem_map.mp hk
      obtain ⟨hm, hmp⟩ := List.mem_filter.mp hm
      dsimp only at hmk
      rw [← hmk]
      exact h.known m hm hmp
    · rw [List.filter_cons_of_neg hpm, List.filter_nil, List.map_nil, List.append_nil]
      exact h.once

theorem Endpoint.Once.received {r r' : Resender} {dropped : Bool} {ack : Option Meta}
    (h : e.Once p node) (hp : p msg = true → msg.control.cmd ≠ .terminate)
    (hr : e.resender = some r) (hin : r.addIncomming node msg = .ok (dropped, r', ack)) :
    (e.received r' ack dropped msg).Once p node := by
  have hkeys : e.keys = r.acked := by
    unfold keys
    rw [hr]
    rfl
  rcases Resender.addIncomming_spec hin with
    ⟨hterm, rfl, rfl, -⟩ | ⟨-, rfl, -, hsame, -⟩ | ⟨hcmd, -, -, hcase⟩
  · refine h.pass False rfl (fun k => ?_) False.elim fun hpm => absurd hterm (hp hpm)
    rw [hkeys, false_and, or_false]
    rfl
  · exact h.congr (List.append_nil _) (hsame.trans hkeys.symm)
  · rcases hcase with ⟨-, rfl, hsame⟩ | ⟨hnew, rfl, hsame⟩
    · exact h.congr (List.append_nil _) (hsame.trans hkeys.symm)
    · refine h.pass True rfl (fun k => ?_) (fun _ => hcmd.1) fun _ => ⟨trivial, ?_⟩
      · change k ∈ r'.acked ↔ _
        rw [hsame, hkeys, List.mem_append, List.mem_singleton, true_and]
      · rw [hkeys]
        exact hnew

namespace Network

/-- The messages that satisfy `p` find the resender of the node when the node receives them. -/
def Guarded (s : Network) (p : Meta → Bool) (node : ℤ) (a : NetAction) : Prop :=
  ∀ i msg, a = .receive i → s.net[i]? = some msg → msg.recver = node → p msg = true →
    (s.endpoint node).resender.isSome

theorem once_of_effect (h : (s.endpoint node).Once p node)
    (hp : ∀ m, p m = true → m.control.cmd ≠ .terminate) (ha : s.Guarded p node a)
    (hs : s.Effect a s') : (s'.endpoint node).Once p node := by
  -- The other actions leave the keys and the messages handed on as they are.
  have hframe : ∀ {v : ℤ} {e : Endpoint}, e.passed = (s.endpoint v).passed →
      e.keys = (s.endpoint v).keys → ((s.setEndpoint v e).endpoint node).Once p node := by
    intro v e hpassed hkeys
    unfold setEndpoint
    dsimp only
    by_cases hv : node = v
    · subst hv
      rw [Function.update_self]
      exact h.congr hpassed hkeys
    · rw [Function.update_of_ne hv]
      exact h
  cases hs with
  | skip => exact h
  | create v => exact hframe rfl rfl
  | send v msg => exact hframe rfl rfl
  | buffer hi hr hr' =>
    refine hframe rfl ?_
    unfold Endpoint.keys
    rw [hr]
    exact (Resender.addOutgoing_spec hr').1
  | forget hi hr => exact hframe rfl rfl
  | timeout hr ht =>
    refine hframe rfl ?_
    unfold Endpoint.keys
    rw [hr]
    exact (Resender.timeout_spec ht).1
  | resend hi => exact hframe rfl rfl
  | @pass i msg hi hr =>
    change (Function.update s.endpoint msg.recver _ node).Once p node
    by_cases hv : node = msg.recver
    · subst hv
      rw [Function.update_self]
      refine h.pass False rfl (fun k => ?_) False.elim fun hpm => ?_
      · rw [false_and, or_false]
        rfl
      · have hsome := ha i msg rfl hi rfl hpm
        rw [hr] at hsome
        exact nomatch hsome
    · rw [Function.update_of_ne hv]
      exact h
  | @receive i msg r r' dropped ack hi hr hin =>
    change (Function.update s.endpoint msg.recver _ node).Once p node
    by_cases hv : node = msg.recver
    · subst hv
      rw [Function.update_self]
      exact h.received (hp msg) hr hin
    · rw [Function.update_of_ne hv]
      exact h
  | sendAck hi => exact hframe rfl rfl
  | channel a hnet => exact h

end Network

end Once

/-! ## Messages that are kept -/

/-- Resenders are live, and every message that is sent has a key of its own. -/
def NetAction.Live (s : Network) : NetAction → Prop
  | .send node msg =>
    (node ≠ kEmpty ∧ (s.endpoint node).resender.isSome) ∧
      (msg.sender = kEmpty ∧ msg.control.cmd ≠ .ack ∧ msg.control.cmd ≠ .terminate) ∧
      ∀ x ∈ s.sent, keyBits x.1 x.2 ≠ keyBits node msg
  | .receive i => ∀ msg ∈ s.net[i]?, (s.endpoint msg.recver).resender.isSome
  | _ => True

theorem NetAction.Live.guarded (h : a.Live s) (p : Meta → Bool) (node : ℤ) :
    s.Guarded p node a := by
  rintro i msg rfl hi rfl -
  exact h msg hi

theorem getKey_from {node : ℤ} {msg : Meta} (hnode : node ≠ kEmpty) (hmsg : msg.sender = kEmpty)
    (u : ℤ) : getKey u (msg.from node) = getKey node msg := by
  unfold getKey Meta.senderAt Meta.from
  rw [if_neg hnode, if_pos hmsg]
  rfl

namespace Network

def Passed (s : Network) (x : ℤ × Meta) : Prop :=
  x.2.from x.1 ∈ (s.endpoint x.2.recver).passed

/-- The entry of a message is in `send_buff_`. -/
def Buffered (s : Network) (x : ℤ × Meta) : Prop :=
  ∃ r, (s.endpoint x.1).resender = some r ∧ (keyBits x.1 x.2, x.2) ∈ r.entries

def Confirms (s : Network) (key : ℕ) : Prop := ∃ x ∈ s.sent, keyBits x.1 x.2 = key ∧ s.Passed x

structure Sound (s : Network) : Prop extends s.Genuine where
  keys : (s.sent.map fun x => keyBits x.1 x.2).Nodup
  sent : ∀ x ∈ s.sent, x.1 ≠ kEmpty ∧ x.2.sender = kEmpty ∧ x.2.control.cmd ≠ .ack ∧
    x.2.control.cmd ≠ .terminate
  once : ∀ node, (s.endpoint node).Once (·.control.cmd ≠ .terminate) node
  noAck : ∀ node, ∀ m ∈ (s.endpoint node).passed, m.control.cmd ≠ .ack
  live : ∀ x ∈ s.sent, (s.endpoint x.1).resender.isSome
  acks : ∀ node, ∀ a ∈ (s.endpoint node).acks, s.Confirms a.control.msgSig
  netAcks : ∀ m ∈ s.net, m.control.cmd = .ack → s.Confirms m.control.msgSig
  kept : ∀ x ∈ s.sent, s.Buffered x ∨ x.2 ∈ (s.endpoint x.1).sending ∨ s.Passed x

theorem sound_init : init.Sound where
  toGenuine := genuine_init
  keys := List.nodup_nil
  sent _ h := nomatch h
  once := Endpoint.once_init _
  noAck _ _ h := nomatch h
  live _ h := nomatch h
  acks _ _ h := nomatch h
  netAcks _ h := nomatch h
  kept _ h := nomatch h

theorem Sound.eq_of_key (h : s.Sound) {x y : ℤ × Meta} (hx : x ∈ s.sent)
    (hy : y ∈ s.sent) (hkey : keyBits x.1 x.2 = keyBits y.1 y.2) : x = y :=
  List.inj_on_of_nodup_map h.keys hx hy hkey

theorem Sound.senderAt (h : s.Sound) {x : ℤ × Meta} (hx : x ∈ s.sent) :
    x.2.senderAt x.1 = x.1 ∧ ∀ u, (x.2.from x.1).senderAt u = x.1 :=
  ⟨if_pos (h.sent x hx).2.1, fun _ => if_neg (h.sent x hx).1⟩

theorem Sound.exists_sent (h : s.Sound) {node : ℤ} {m : Meta}
    (hm : m ∈ (s.endpoint node).passed) (hcmd : m.control.cmd ≠ .terminate) :
    ∃ x ∈ s.sent, m = x.2.from x.1 ∧ x.2.recver = node := by
  obtain ⟨hterm | hack | ⟨x, hx, rfl⟩, hrecver⟩ := (h.endpoint node).passed m hm
  · exact absurd hterm hcmd
  · exact absurd hack (h.noAck node m hm)
  · exact ⟨x, hx, rfl, hrecver⟩

/-! ### What no step undoes -/

theorem passed_cases (hs : s.Effect a s') (v : ℤ) :
    (s'.endpoint v).passed = (s.endpoint v).passed ∨
      ∃ i msg, a = .receive i ∧ s.net[i]? = some msg ∧ msg.recver = v ∧
        (s'.endpoint v).passed = (s.endpoint v).passed ++ [msg] := by
  have hone : ∀ {node : ℤ} {e : Endpoint}, e.passed = (s.endpoint node).passed →
      ((s.setEndpoint node e).endpoint v).passed = (s.endpoint v).passed := fun he =>
    forall_setEndpoint (P := fun v e => e.passed = (s.endpoint v).passed) (fun _ => rfl) he v
  have hrecv : ∀ {i : ℕ} {msg : Meta} {e : Endpoint}, a = .receive i → s.net[i]? = some msg →
      e.passed = (s.endpoint msg.recver).passed ++ [msg] →
      ((s.setEndpoint msg.recver e).endpoint v).passed = (s.endpoint v).passed ∨
        ∃ i msg', a = .receive i ∧ s.net[i]? = some msg' ∧ msg'.recver = v ∧
          ((s.setEndpoint msg.recver e).endpoint v).passed = (s.endpoint v).passed ++ [msg'] := by
    intro i msg e ha hi he
    unfold setEndpoint
    dsimp only
    by_cases hv : v = msg.recver
    · subst hv
      rw [Function.update_self]
      exact .inr ⟨i, msg, ha, hi, rfl, he⟩
    · rw [Function.update_of_ne hv]
      exact .inl rfl
  cases hs with
  | skip => exact .inl rfl
  | channel a hnet => exact .inl rfl
  | pass hi hr => exact hrecv rfl hi rfl
  | @receive i msg r r' dropped ack hi hr hin =>
    cases dropped
    · exact hrecv rfl hi rfl
    · exact .inl (hone (List.append_nil _))
  | _ =>
    refine .inl (hone ?_)
    rfl

theorem passed_of_effect (hs : s.Effect a s') (v : ℤ) :
    (s.endpoint v).passed ⊆ (s'.endpoint v).passed := by
  rcases passed_cases hs v with hp | ⟨_, _, -, -, -, hp⟩
  · rw [hp]
    exact List.Subset.refl _
  · rw [hp]
    exact List.subset_append_left _ _

theorem sent_of_effect (hs : s.Effect a s') : s.sent ⊆ s'.sent := by
  cases hs with
  | send => exact List.subset_append_left _ _
  | _ => exact List.Subset.refl _

theorem live_of_effect (hs : s.Effect a s') (v : ℤ) (h : (s.endpoint v).resender.isSome) :
    (s'.endpoint v).resender.isSome := by
  have hone : ∀ {node : ℤ} {e : Endpoint},
      ((s.endpoint node).resender.isSome → e.resender.isSome) →
      ((s.setEndpoint node e).endpoint v).resender.isSome := fun he =>
    forall_setEndpoint (P := fun v e => (s.endpoint v).resender.isSome → e.resender.isSome)
      (fun _ => id) he v h
  cases hs with
  | skip => exact h
  | channel a hnet => exact h
  | create => exact hone fun _ => rfl
  | buffer => exact hone fun _ => rfl
  | timeout => exact hone fun _ => rfl
  | receive => exact hone fun _ => rfl
  | _ => exact hone fun h => h

theorem Passed.effect {x : ℤ × Meta} (h : s.Passed x) (hs : s.Effect a s') : s'.Passed x :=
  passed_of_effect hs _ h

theorem Confirms.effect {key : ℕ} (h : s.Confirms key) (hs : s.Effect a s') : s'.Confirms key := by
  obtain ⟨x, hx, hkey, hp⟩ := h
  exact ⟨x, sent_of_effect hs hx, hkey, hp.effect hs⟩

/-! ### What is acknowledged has been passed -/

theorem Sound.confirms (h : s.Sound) {i : ℕ} {msg ack : Meta} {r r' : Resender} {dropped : Bool}
    (hs : s.Effect (.receive i) s') (hmsg : msg ∈ s.net)
    (hr : (s.endpoint msg.recver).resender = some r)
    (hin : r.addIncomming msg.recver msg = .ok (dropped, r', some ack))
    (hpassed : dropped = false → msg ∈ (s'.endpoint msg.recver).passed) :
    s'.Confirms ack.control.msgSig := by
  rcases Resender.addIncomming_spec hin with ⟨-, -, -, hnone⟩ | ⟨-, -, hnone, -⟩ |
    ⟨hcmd, -, ⟨a, ha, -, hsig⟩, hcase⟩
  · exact nomatch hnone
  · exact nomatch hnone
  cases ha
  rcases h.net msg hmsg with hterm | hack | ⟨x, hx, rfl⟩
  · exact absurd hterm hcmd.1
  · exact absurd hack hcmd.2
  rw [(h.senderAt hx).2] at hsig hcase
  rcases hcase with ⟨hmem, -, -⟩ | ⟨-, rfl, -⟩
  · -- The key is that of a message that was passed; only this one has it.
    have hmem' : keyBits x.1 x.2 ∈ (s.endpoint (x.2.from x.1).recver).keys := by
      unfold Endpoint.keys
      rw [hr]
      exact hmem
    obtain ⟨m, hm, hmcmd, hmkey⟩ := (h.once _).acked _ hmem'
    obtain ⟨y, hy, rfl, -⟩ := h.exists_sent hm hmcmd
    rw [(h.senderAt hy).2] at hmkey
    rw [h.eq_of_key hy hx hmkey] at hm
    exact ⟨x, sent_of_effect hs hx, hsig.symm, passed_of_effect hs _ hm⟩
  · exact ⟨x, sent_of_effect hs hx, hsig.symm, hpassed rfl⟩

theorem Sound.acks_of_effect (h : s.Sound) (hs : s.Effect a s') (v : ℤ) :
    ∀ ack ∈ (s'.endpoint v).acks, s'.Confirms ack.control.msgSig := by
  obtain ⟨C, hC⟩ : ∃ C, C = s'.Confirms := ⟨_, rfl⟩
  have hold : ∀ v, ∀ ack ∈ (s.endpoint v).acks, C ack.control.msgSig := by
    rw [hC]
    exact fun v ack hack => (h.acks v ack hack).effect hs
  rw [← hC]
  revert v
  have hs' := hs
  cases hs with
  | skip => exact hold
  | channel a hnet => exact hold
  | @receive i msg r r' dropped ack hi hr hin =>
    refine forall_setEndpoint (P := fun _ e => ∀ ack ∈ e.acks, C ack.control.msgSig) hold
      fun a ha => ?_
    rcases List.mem_append.mp ha with ha | ha
    · exact hold _ a ha
    · rw [Option.mem_toList.mp ha] at hin
      rw [hC]
      refine h.confirms hs' (List.mem_of_getElem? hi) hr hin fun hd => ?_
      change msg ∈ (Function.update s.endpoint msg.recver _ msg.recver).passed
      rw [Function.update_self, hd]
      exact List.mem_append_right _ (List.mem_singleton_self _)
  | sendAck hi =>
    exact forall_setEndpoint (P := fun _ e => ∀ ack ∈ e.acks, C ack.control.msgSig) hold
      fun a ha => hold _ a (List.mem_of_mem_eraseIdx ha)
  | _ =>
    exact forall_setEndpoint (P := fun _ e => ∀ ack ∈ e.acks, C ack.control.msgSig) hold (hold _)

theorem Sound.netAcks_of_effect (h : s.Sound) (ha : a.Live s) (hs : s.Effect a s') :
    ∀ m ∈ s'.net, m.control.cmd = .ack → s'.Confirms m.control.msgSig := by
  have hold : ∀ m ∈ s.net, m.control.cmd = .ack → s'.Confirms m.control.msgSig :=
    fun m hm hcmd => (h.netAcks m hm hcmd).effect hs
  cases hs with
  | send node msg =>
    intro m hm hcmd
    rcases List.mem_append.mp hm with hm | hm
    · exact hold m hm hcmd
    · rw [List.mem_singleton.mp hm] at hcmd
      exact absurd hcmd ha.2.1.2.1
  | resend hi =>
    intro m hm hcmd
    rcases List.mem_append.mp hm with hm | hm
    · exact hold m hm hcmd
    · rw [List.mem_singleton.mp hm] at hcmd
      exact absurd hcmd (h.sent _ ((h.endpoint _).resend _ (List.mem_of_getElem? hi))).2.2.1
  | pass => exact fun m hm => hold m (List.mem_of_mem_eraseIdx hm)
  | receive => exact fun m hm => hold m (List.mem_of_mem_eraseIdx hm)
  | @sendAck node i ack hi =>
    intro m hm hcmd
    rcases List.mem_append.mp hm with hm | hm
    · exact hold m hm hcmd
    · rw [List.mem_singleton.mp hm]
      exact (h.acks node ack (List.mem_of_getElem? hi)).effect (.sendAck hi)
  | channel a hnet =>
    intro m hm hcmd
    rcases hnet m hm with hm | hterm
    · exact hold m hm hcmd
    · rw [hterm] at hcmd
      exact nomatch hcmd
  | _ => exact hold

theorem Sound.noAck_of_effect (h : s.Sound) (ha : a.Live s) (hs : s.Effect a s') (v : ℤ) :
    ∀ m ∈ (s'.endpoint v).passed, m.control.cmd ≠ .ack := by
  revert v
  cases hs with
  | skip => exact h.noAck
  | channel a hnet => exact h.noAck
  | @pass i msg hi hr =>
    have hsome := ha msg hi
    rw [hr] at hsome
    exact nomatch hsome
  | @receive i msg r r' dropped ack hi hr hin =>
    refine forall_setEndpoint (P := fun _ e => ∀ m ∈ e.passed, m.control.cmd ≠ .ack) h.noAck
      fun m hm => ?_
    rcases List.mem_append.mp hm with hm | hm
    · exact h.noAck _ m hm
    · rcases Resender.addIncomming_spec hin with ⟨hterm, rfl, -⟩ | ⟨-, rfl, -⟩ | ⟨hcmd, -⟩
      · rw [List.mem_singleton.mp hm, hterm]
        exact nofun
      · exact nomatch hm
      · cases dropped
        · rw [List.mem_singleton.mp hm]
          exact hcmd.2
        · exact nomatch hm
  | _ =>
    exact forall_setEndpoint (P := fun _ e => ∀ m ∈ e.passed, m.control.cmd ≠ .ack) h.noAck
      (h.noAck _)

/-! ### Entries that leave the buffer -/

theorem Sound.kept_of_addIncomming (h : s.Sound) {msg m : Meta} {r r' : Resender} {dropped : Bool}
    {ack : Option Meta} (hmsg : msg ∈ s.net)
    (hin : r.addIncomming msg.recver msg = .ok (dropped, r', ack))
    (hm : (msg.recver, m) ∈ s.sent) (hmem : (keyBits msg.recver m, m) ∈ r.entries) :
    (keyBits msg.recver m, m) ∈ r'.entries ∨ s.Passed (msg.recver, m) := by
  rcases Resender.addIncomming_spec hin with
    ⟨-, -, rfl, -⟩ | ⟨hack, -, -, -, hentries⟩ | ⟨-, hentries, -⟩
  · exact .inl hmem
  · by_cases hkey : keyBits msg.recver m = msg.control.msgSig
    · -- The ACK names a passed message, and only one message has that key.
      obtain ⟨x, hx, hxkey, hpass⟩ := h.netAcks msg hmsg hack
      rw [h.eq_of_key hx hm (hxkey.trans hkey.symm)] at hpass
      exact .inr hpass
    · rw [hentries]
      exact .inl (List.mem_filter.mpr ⟨hmem, decide_eq_true hkey⟩)
  · rw [hentries]
    exact .inl hmem

theorem Buffered.update {x : ℤ × Meta} {node : ℤ} {e : Endpoint} {net : List Meta}
    {sent : List (ℤ × Meta)} (hb : s.Buffered x)
    (he : ∀ r, (s.endpoint node).resender = some r → x.1 = node →
      (keyBits x.1 x.2, x.2) ∈ r.entries →
      (∃ r', e.resender = some r' ∧ (keyBits x.1 x.2, x.2) ∈ r'.entries) ∨ s.Passed x) :
    Buffered { s.setEndpoint node e with net, sent } x ∨ s.Passed x := by
  obtain ⟨r, hr, hmem⟩ := hb
  by_cases hx : x.1 = node
  · rcases he r (hx ▸ hr) hx hmem with ⟨r', hr', hmem'⟩ | hp
    · refine .inl ⟨r', ?_, hmem'⟩
      change (Function.update s.endpoint node e x.1).resender = some r'
      rw [hx, Function.update_self]
      exact hr'
    · exact .inr hp
  · refine .inl ⟨r, ?_, hmem⟩
    change (Function.update s.endpoint node e x.1).resender = some r
    rw [Function.update_of_ne hx]
    exact hr

theorem Sound.leaves (h : s.Sound) {x : ℤ × Meta} (hs : s.Effect a s') (hb : s.Buffered x) :
    s'.Buffered x ∨ s.Passed x := by
  cases hs with
  | skip => exact .inl hb
  | channel a hnet => exact .inl hb
  | create node =>
    exact hb.update fun r hr _ hmem =>
      .inl ⟨r, congrArg (fun o => some (Option.getD o .init)) hr, hmem⟩
  | buffer hi hr hr' =>
    refine hb.update fun r₀ hr₀ _ hmem => ?_
    cases hr.symm.trans hr₀
    exact .inl ⟨_, rfl, Resender.entries_subset_addOutgoing hr' hmem⟩
  | timeout hr ht =>
    refine hb.update fun r₀ hr₀ _ hmem => .inl ⟨_, rfl, ?_⟩
    cases hr.symm.trans hr₀
    rw [(Resender.timeout_spec ht).2.1]
    exact hmem
  | @receive i msg r r' dropped ack hi hr hin =>
    refine hb.update fun r₀ hr₀ hx hmem => ?_
    cases hr.symm.trans hr₀
    obtain ⟨v, m⟩ := x
    cases hx
    have hbuf := (h.endpoint msg.recver).buffered
    rw [hr] at hbuf
    exact (h.kept_of_addIncomming (List.mem_of_getElem? hi) hin (hbuf _ hmem).1 hmem).imp_left
      fun hmem' => ⟨r', rfl, hmem'⟩
  | _ => exact hb.update fun r hr _ hmem => .inl ⟨r, hr, hmem⟩

theorem sending_setEndpoint {node v : ℤ} {e : Endpoint} {m : Meta}
    (he : (s.endpoint node).sending ⊆ e.sending) (hm : m ∈ (s.endpoint v).sending) :
    m ∈ ((s.setEndpoint node e).endpoint v).sending :=
  forall_setEndpoint (P := fun v e => (s.endpoint v).sending ⊆ e.sending)
    (fun _ => List.Subset.refl _) he v hm

theorem Sound.sending_of_effect (h : s.Sound) {x : ℤ × Meta} (hx : x ∈ s.sent)
    (hs : s.Effect a s') (hsend : x.2 ∈ (s.endpoint x.1).sending) :
    s'.Buffered x ∨ x.2 ∈ (s'.endpoint x.1).sending := by
  cases hs with
  | skip => exact .inr hsend
  | channel a hnet => exact .inr hsend
  | send node msg => exact .inr (sending_setEndpoint (List.subset_append_left _ _) hsend)
  | resend hi => exact .inr (sending_setEndpoint (List.subset_append_left _ _) hsend)
  | @forget node i msg hi hr =>
    have hsome := h.live _ ((h.endpoint node).sending msg (List.mem_of_getElem? hi))
    rw [hr] at hsome
    exact nomatch hsome
  | @buffer node i msg r r' hi hr hr' =>
    obtain ⟨v, m⟩ := x
    unfold Buffered setEndpoint
    dsimp only at hsend ⊢
    by_cases hv : v = node
    · subst hv
      rw [Function.update_self]
      rcases mem_eraseIdx_or hi hsend with hin | rfl
      · exact .inr hin
      · refine .inl ⟨r', rfl, ?_⟩
        have hbuf := (h.endpoint v).buffered
        rw [hr] at hbuf
        rcases (Resender.addOutgoing_spec hr').2 with ⟨rfl, hack | ⟨m', hm'⟩⟩ | hentries
        · exact absurd hack (h.sent _ hx).2.2.1
        · -- An entry found under the key is the entry of this message.
          obtain ⟨hsent, hkey⟩ := hbuf _ hm'
          rw [(h.senderAt hx).1] at hm' hkey
          rw [(h.senderAt hsent).1] at hkey
          have heq : (v, m) = (v, m') := h.eq_of_key hx hsent hkey
          cases heq
          exact hm'
        · rw [hentries, (h.senderAt hx).1]
          simp
    · rw [Function.update_of_ne hv]
      exact .inr hsend
  | _ =>
    refine .inr (sending_setEndpoint ?_ hsend)
    exact List.Subset.refl _

theorem sent_cases (hs : s.Effect a s') :
    s'.sent = s.sent ∨ ∃ node msg, a = .send node msg ∧ s'.sent = s.sent ++ [(node, msg)] ∧
      msg ∈ (s'.endpoint node).sending := by
  cases hs with
  | send node msg =>
    refine .inr ⟨node, msg, rfl, rfl, ?_⟩
    change msg ∈ (Function.update s.endpoint node _ node).sending
    rw [Function.update_self]
    exact List.mem_append_right _ (List.mem_singleton_self _)
  | _ => exact .inl rfl

theorem Sound.effect (h : s.Sound) (ha : a.Live s) (hs : s.Effect a s') : s'.Sound := by
  have hkept : ∀ x ∈ s.sent, s'.Buffered x ∨ x.2 ∈ (s'.endpoint x.1).sending ∨ s'.Passed x := by
    intro x hx
    rcases h.kept x hx with hb | hsend | hp
    · exact (h.leaves hs hb).imp_right fun hp => .inr (hp.effect hs)
    · exact (h.sending_of_effect hx hs hsend).imp_right .inl
    · exact .inr (.inr (hp.effect hs))
  have hlive : ∀ x ∈ s.sent, (s'.endpoint x.1).resender.isSome :=
    fun x hx => live_of_effect hs x.1 (h.live x hx)
  refine ⟨h.toGenuine.effect hs, ?_, ?_, fun v => once_of_effect (h.once v)
      (fun _ => of_decide_eq_true) (ha.guarded _ v) hs,
    h.noAck_of_effect ha hs, ?_, h.acks_of_effect hs, h.netAcks_of_effect ha hs, ?_⟩ <;>
    rcases sent_cases hs with hsent | ⟨node, msg, rfl, hsent, hsending⟩
  · rw [hsent]
    exact h.keys
  · rw [hsent, List.map_append]
    refine Lists.nodup_append_singleton h.keys fun hk => ?_
    obtain ⟨x, hx, hkey⟩ := List.mem_map.mp hk
    exact ha.2.2 x hx hkey
  · rw [hsent]
    exact h.sent
  · rw [hsent]
    refine List.forall_mem_append.mpr ⟨h.sent, fun x hx => ?_⟩
    rw [List.mem_singleton.mp hx]
    exact ⟨ha.1.1, ha.2.1⟩
  · rw [hsent]
    exact hlive
  · rw [hsent]
    refine List.forall_mem_append.mpr ⟨hlive, fun x hx => ?_⟩
    rw [List.mem_singleton.mp hx]
    exact live_of_effect hs node ha.1.2
  · rw [hsent]
    exact hkept
  · rw [hsent]
    refine List.forall_mem_append.mpr ⟨hkept, fun x hx => ?_⟩
    rw [List.mem_singleton.mp hx]
    exact .inr (.inl hsending)

/-! ## Delivery -/

structure Delivers (s : Network) : Prop where
  -- The two ends of a message agree on its key.
  key : ∀ x ∈ s.sent, ∀ u, getKey u (x.2.from x.1) = getKey x.1 x.2
  -- A message is handed on at most once, at its receiver.
  once : ∀ u m, m.control.cmd ≠ .ack → m.control.cmd ≠ .terminate →
    (s.endpoint u).passed.count m ≤ 1 ∧
      (m ∈ (s.endpoint u).passed → ∃ x ∈ s.sent, m = x.2.from x.1 ∧ x.2.recver = u)
  -- An entry that leaves `send_buff_` is that of a message that was handed on before.
  leaves : ∀ a s', NetAction.Live s a → s.step a = .ok s' →
    ∀ x, s.Buffered x → ¬s'.Buffered x → s.Passed x
  -- No message is lost: it is in `send_buff_`, about to be added, or was handed on.
  kept : ∀ x ∈ s.sent, s.Buffered x ∨ x.2 ∈ (s.endpoint x.1).sending ∨ s.Passed x

theorem Sound.delivers (h : s.Sound) : s.Delivers where
  key x hx u := getKey_from (h.sent x hx).1 (h.sent x hx).2.1 u
  once u m _ hcmd := by
    refine ⟨?_, fun hm => h.exists_sent hm hcmd⟩
    have hnodup := List.nodup_iff_count_le_one.mp (h.once u).once.of_map m
    have hp : decide (m.control.cmd ≠ .terminate) = true := decide_eq_true hcmd
    rwa [List.count_filter (p := fun m : Meta => decide (m.control.cmd ≠ .terminate)) hp] at hnodup
  leaves a s' _ hs x hb hb' := (h.leaves (effect_of_step hs) hb).resolve_left hb'
  kept := h.kept

end Network

instance (s : Network) : DecidablePred (NetAction.Live s) := fun a => by
  unfold NetAction.Live
  cases a <;> infer_instance

theorem resender_delivers {s : Network} (h : network.Reachable (fun s a => a.Live s) s) :
    s.Delivers :=
  (h.invariant (P := Network.Sound) Network.sound_init fun _ _ _ h ha hs =>
    h.effect ha (Network.effect_of_step hs)).delivers

/-- A worker sends a request to a server and the request is lost; the monitor sends it again, the
channel duplicates it, and the first ACK arrives. -/
def lossyRun : List NetAction :=
  [.create 8, .create 9, .send 9 { recver := 8, timestamp := 0, request := true }, .lose 0,
    .addOutgoing 9 0, .timeout 9 (keyBits 9 { recver := 8, timestamp := 0, request := true }),
    .resend 9 0, .duplicate 0, .receive 0, .receive 0, .sendAck 8 0, .receive 0, .addOutgoing 9 0]

theorem resender_delivers_lossyRun : ∃ s : Network,
    network.Reachable (fun s a => a.Live s) s ∧ (s.endpoint 8).passed.length = 1 ∧
    (s.endpoint 8).acks.length = 1 ∧ s.sent.length = 1 ∧ s.Delivers := by
  obtain ⟨s, hs, hpassed, hacks, hsent⟩ := network.exists_reachable_of_run
    (fun s a => a.Live s) lossyRun (fun s => (s.endpoint 8).passed.length = 1 ∧
      (s.endpoint 8).acks.length = 1 ∧ s.sent.length = 1) (by decide +kernel)
  exact ⟨s, hs, hpassed, hacks, hsent, resender_delivers hs⟩

end Ps
