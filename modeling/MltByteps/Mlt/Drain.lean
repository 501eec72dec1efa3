import MltByteps.Mlt.Framing
import MltByteps.Mlt.Guarantees

/-! A round of retransmission, from the numbers the receiver misses to the packets the sender
routes for them. -/

namespace Mlt
open Communicator IntervalList RetransmitRequest

/-! ## Draining a request -/

/-- What a step adds to the queues for a message: the numbers of its packets, and how many
`FlowFinish` signals. -/
def Communicator.emits (h : Host) (m : UInt32) (c c' : Communicator) : List ℕ × ℕ :=
  (((c'.txPackets.drop c.txPackets.length).filter (·.1.msgId = m)).map (·.1.seq.toNat),
    (c'.txQueue.drop c.txQueue.length).count (h.destCommId, .flowFinish m))

structure Communicator.Keyed (c : Communicator) : Prop where
  reqs : ∀ k hdr state, c.retransmitReqs.lookup k = some (hdr, state) → hdr.msgId = k
  msgs : ∀ k e, c.retransmittingMsgs.lookup k = some e → e.msgId = k

/-- A run of polls, with what each of them emits for the message `m`. In between anything may
happen to the requests and messages of other ids. -/
inductive Draining (h : Host) (m : UInt32) :
    Communicator → List (List ℕ × ℕ) → Communicator → Prop
  | refl (c : Communicator) : Draining h m c [] c
  | poll {c c' c'' : Communicator} {trace : List (List ℕ × ℕ)} (throttled elapsed : Bool) :
      Draining h m c trace c' → c'.pollRetransmitRequest h throttled elapsed = .ok c'' →
      Draining h m c (trace ++ [c'.emits h m c'']) c''
  | other {c c' c'' : Communicator} {trace : List (List ℕ × ℕ)} :
      Draining h m c trace c' → c''.Keyed →
      c''.retransmitReqs.lookup m = c'.retransmitReqs.lookup m →
      c''.retransmittingMsgs.lookup m = c'.retransmittingMsgs.lookup m →
      Draining h m c trace c''

/-- One packet for each number, the last one together with a `FlowFinish`. -/
def schedule : List ℕ → List (List ℕ × ℕ)
  | [] => []
  | q :: rest => ([q], if rest = [] then 1 else 0) :: schedule rest

variable {h : Host} {m : UInt32} {c c' : Communicator}

def Communicator.resent (key : UInt32) (pkt : GradPacket) (use : ℕ) (fin elapsed : Bool)
    (nbytes : ℕ) (hdr : RetransmitRequest) (state : RetransmitState) (c : Communicator) :
    Communicator :=
  ((c.routePacket pkt use fin).meter elapsed nbytes).putRequest key key hdr state

section

variable (key : UInt32) (pkt : GradPacket) (use nbytes : ℕ) (fin elapsed : Bool)
  (hdr : RetransmitRequest) (state : RetransmitState)

theorem emits_self : c.emits h m c = ([], 0) := by
  simp [emits]

theorem emits_resent (hdst : (pkt.dstCommId.toNat : ℤ) = h.destCommId) :
    c.emits h m (c.resent key pkt use fin elapsed nbytes hdr state) =
      if pkt.msgId = m then ([pkt.seq.toNat], if fin then 1 else 0) else ([], 0) := by
  have hp : (c.resent key pkt use fin elapsed nbytes hdr state).txPackets =
      c.txPackets ++ [(pkt, use)] := by
    cases fin <;> rfl
  have hq : (c.resent key pkt use fin elapsed nbytes hdr state).txQueue =
      c.txQueue ++ if fin then [(h.destCommId, .flowFinish pkt.msgId)] else [] := by
    rw [← hdst]
    cases fin
    · exact (List.append_nil _).symm
    · rfl
  rw [emits, hp, hq, List.drop_left, List.drop_left]
  by_cases hm : pkt.msgId = m <;> cases fin <;> simp [hm]

theorem lookup_resent (k : UInt32) :
    (c.resent key pkt use fin elapsed nbytes hdr state).retransmitReqs.lookup k =
      if k = key then (if state.blockNum = hdr.numBlocks then none else some (hdr, state))
      else c.retransmitReqs.lookup k := by
  have hr : (c.resent key pkt use fin elapsed nbytes hdr state).retransmitReqs =
      if state.blockNum = hdr.numBlocks then (c.retransmitReqs.insert key (hdr, state)).erase key
      else c.retransmitReqs.insert key (hdr, state) := by
    cases fin <;> rfl
  rw [hr]
  split_ifs with hend hk hk <;>
    simp [IntMap.lookup_erase_ite, IntMap.lookup_insert_ite, hk]

theorem retransmittingMsgs_resent :
    (c.resent key pkt use fin elapsed nbytes hdr state).retransmittingMsgs =
      c.retransmittingMsgs := by
  cases fin <;> rfl

theorem Communicator.Keyed.resent (hk : c.Keyed) (hkey : hdr.msgId = key) :
    (c.resent key pkt use fin elapsed nbytes hdr state).Keyed where
  reqs k hdr' state' hl := by
    rw [lookup_resent] at hl
    split_ifs at hl with h1 h2
    · cases hl
      exact hkey.trans h1.symm
    · exact hk.reqs k hdr' state' hl
  msgs k e hl := hk.msgs k e (by rwa [retransmittingMsgs_resent] at hl)

end

theorem pollRetransmitRequest_cases {throttled elapsed : Bool}
    (hp : c.pollRetransmitRequest h throttled elapsed = .ok c') :
    c' = c ∨ throttled = false ∧ ∃ key hdr state e fin state',
      c.retransmitReqs.begin? = some (key, hdr, state) ∧ hdr.commId = h.destCommId ∧
      c.retransmittingMsgs.lookup hdr.msgId = some e ∧
      c' = ((c.routePacket (h.packetizer.partitionOneBySeq hdr.commId e h.prioFunc
        (toInt32 state.seqNum)) e.use fin).meter elapsed (h.packetizer.getBytes e)).putRequest key
        e.msgId hdr state' := by
  unfold pollRetransmitRequest at hp
  rcases hb : c.retransmitReqs.begin? with _ | ⟨key, hdr, state⟩
  · rw [hb] at hp
    cases hp
    exact .inl rfl
  rw [hb] at hp
  obtain ⟨hcomm, hp⟩ := require_bind_eq_ok.mp hp
  rcases hmsg : c.retransmittingMsgs.lookup hdr.msgId with _ | e
  · rw [hmsg] at hp
    cases hp
  rw [hmsg] at hp
  cases throttled
  case true =>
    cases hp
    exact .inl rfl
  simp only [Bool.false_eq_true, if_false] at hp
  obtain ⟨-, hp⟩ := require_bind_eq_ok.mp hp
  obtain ⟨block, -, hp⟩ := bind_eq_ok.mp hp
  obtain ⟨-, hp⟩ := require_bind_eq_ok.mp hp
  obtain ⟨state', -, hp⟩ := bind_eq_ok.mp hp
  cases hp
  exact .inr ⟨rfl, key, hdr, state, e, _, state', rfl, hcomm.symm, hmsg, rfl⟩

theorem partitionOneBySeq_seq {e : LtMessageExt} {q : ℕ} (hq : q < 2 ^ 32) :
    (h.packetizer.partitionOneBySeq h.destCommId e h.prioFunc (toInt32 q)).seq.toNat = q := by
  change (UInt32.ofInt (toInt32 q)).toNat = q
  rw [UInt32.ofInt, UInt32.toNat_ofNat']
  unfold toInt32
  split_ifs <;> omega

/-- The numbers of `todo` are still to be sent for the message `m`. -/
structure Pending (h : Host) (m : UInt32) (e : LtMessageExt) (todo : List ℕ) (c : Communicator) :
    Prop where
  keyed : c.Keyed
  msg : c.retransmittingMsgs.lookup m = some e
  req : todo = [] ∧ c.retransmitReqs.lookup m = none ∨
    ∃ hdr state, c.retransmitReqs.lookup m = some (hdr, state) ∧ hdr.commId = h.destCommId ∧
      hdr.Cursor False state todo

namespace Pending

variable {e : LtMessageExt} {todo : List ℕ}

theorem poll (hp : Pending h m e todo c)
    (hdest : ((UInt16.ofInt h.destCommId).toNat : ℤ) = h.destCommId) {hdr : RetransmitRequest}
    {state : RetransmitState} (hb : c.retransmitReqs.begin? = some (m, hdr, state))
    (elapsed : Bool) :
    ∃ q rest c', todo = q :: rest ∧ c.pollRetransmitRequest h false elapsed = .ok c' ∧
      c.emits h m c' = ([q], if rest = [] then 1 else 0) ∧ Pending h m e rest c' := by
  have hlook := IntMap.lookup_of_begin? hb
  have hid := hp.keyed.reqs _ _ _ hlook
  have heid := hp.keyed.msgs _ _ hp.msg
  rcases hp.req with ⟨-, hnone⟩ | ⟨hdr', state', hsome, hcomm, hcur⟩
  · rw [hlook] at hnone
    cases hnone
  rw [hlook] at hsome
  cases hsome
  obtain ⟨rest, rfl, hyields⟩ :=
    pollRetransmitRequest_eq hb hcomm (hid ▸ hp.msg) hcur elapsed
  obtain ⟨_, hpoll, state', rfl, hend, hnext⟩ := hyields.exists_ok not_false
  have hlt : state.seqNum < 2 ^ 32 := by
    obtain ⟨pre, b, post, hc, -, -, hlt, -⟩ := hcur
    exact hlt.trans (hc.last_lt b (by simp))
  have hseq := partitionOneBySeq_seq (h := h) (e := e) hlt
  have hmid : (h.packetizer.partitionOneBySeq h.destCommId e h.prioFunc
      (toInt32 state.seqNum)).msgId = m := heid
  have hdst : ((h.packetizer.partitionOneBySeq h.destCommId e h.prioFunc
      (toInt32 state.seqNum)).dstCommId.toNat : ℤ) = h.destCommId := hdest
  generalize h.packetizer.partitionOneBySeq h.destCommId e h.prioFunc
    (toInt32 state.seqNum) = pkt at hpoll hseq hmid hdst
  generalize h.packetizer.getBytes e = nbytes at hpoll
  rw [heid] at hpoll
  refine ⟨_, rest, _, rfl, hpoll, ?_, hp.keyed.resent m pkt e.use nbytes _ elapsed hdr state' hid,
    ?_, ?_⟩
  · refine (emits_resent m pkt e.use nbytes _ elapsed hdr state' hdst).trans ?_
    rw [if_pos hmid, hseq]
    simp
  · exact (congrArg (AList.lookup m)
      (retransmittingMsgs_resent m pkt e.use nbytes _ elapsed hdr state')).trans hp.msg
  · have hl := lookup_resent (c := c) m pkt e.use nbytes (decide (rest = [])) elapsed hdr state' m
    rw [if_pos rfl] at hl
    by_cases hrest : rest = []
    · rw [if_pos (hend.mpr hrest)] at hl
      exact .inl ⟨hrest, hl⟩
    · rw [if_neg (hend.not.mpr hrest)] at hl
      exact .inr ⟨hdr, state', hl, hcomm, hnext hrest⟩

theorem step (hp : Pending h m e todo c)
    (hdest : ((UInt16.ofInt h.destCommId).toNat : ℤ) = h.destCommId) {throttled elapsed : Bool}
    (hpoll : c.pollRetransmitRequest h throttled elapsed = .ok c') :
    Pending h m e todo c' ∧ c.emits h m c' = ([], 0) ∨
      ∃ q rest, todo = q :: rest ∧ c.emits h m c' = ([q], if rest = [] then 1 else 0) ∧
        Pending h m e rest c' := by
  rcases pollRetransmitRequest_cases hpoll with
    rfl | ⟨rfl, key, hdr, state, e', fin, state', hb, hcomm, hmsg, rfl⟩
  · exact .inl ⟨hp, emits_self⟩
  by_cases hkey : key = m
  · subst hkey
    obtain ⟨q, rest, c', htodo, hok, hem, hpend⟩ := hp.poll hdest hb elapsed
    cases hpoll.symm.trans hok
    exact .inr ⟨q, rest, htodo, hem, hpend⟩
  · left
    have hid := hp.keyed.reqs _ _ _ (IntMap.lookup_of_begin? hb)
    have heid : e'.msgId = key := (hp.keyed.msgs _ _ hmsg).trans hid
    rw [heid, hcomm]
    have hmid : (h.packetizer.partitionOneBySeq h.destCommId e' h.prioFunc
        (toInt32 state.seqNum)).msgId = key := heid
    have hdst : ((h.packetizer.partitionOneBySeq h.destCommId e' h.prioFunc
        (toInt32 state.seqNum)).dstCommId.toNat : ℤ) = h.destCommId := hdest
    generalize h.packetizer.partitionOneBySeq h.destCommId e' h.prioFunc
      (toInt32 state.seqNum) = pkt at hmid hdst
    generalize h.packetizer.getBytes e' = nbytes
    refine ⟨⟨hp.keyed.resent key pkt e'.use nbytes fin elapsed hdr state' hid, ?_, ?_⟩, ?_⟩
    · exact (congrArg (AList.lookup m)
        (retransmittingMsgs_resent key pkt e'.use nbytes fin elapsed hdr state')).trans hp.msg
    · have hl := lookup_resent (c := c) key pkt e'.use nbytes fin elapsed hdr state' m
      rw [if_neg (Ne.symm hkey)] at hl
      rcases hp.req with ⟨htodo, hnone⟩ | ⟨hdr', st, hsome, hrest⟩
      · exact .inl ⟨htodo, hl.trans hnone⟩
      · exact .inr ⟨hdr', st, hl.trans hsome, hrest⟩
    · refine (emits_resent key pkt e'.use nbytes fin elapsed hdr state' hdst).trans ?_
      rw [hmid, if_neg hkey]

theorem draining (hp : Pending h m e todo c)
    (hdest : ((UInt16.ofInt h.destCommId).toNat : ℤ) = h.destCommId)
    {trace : List (List ℕ × ℕ)} (hd : Draining h m c trace c') :
    ∃ todo', Pending h m e todo' c' ∧
      trace.filter (· ≠ ([], 0)) ++ schedule todo' = schedule todo := by
  induction hd with
  | refl => exact ⟨todo, hp, rfl⟩
  | poll throttled elapsed _ hpoll ih =>
    obtain ⟨todo', hp', hsched⟩ := ih
    rcases hp'.step hdest hpoll with ⟨hp'', hem⟩ | ⟨q, rest, rfl, hem, hp''⟩
    · refine ⟨todo', hp'', ?_⟩
      rw [hem, List.filter_append, ← hsched]
      simp
    · refine ⟨rest, hp'', ?_⟩
      rw [hem, List.filter_append, ← hsched, schedule]
      simp
  | other _ hkeyed hreqs hmsgs ih =>
    obtain ⟨todo', hp', hsched⟩ := ih
    exact ⟨todo', ⟨hkeyed, hmsgs.trans hp'.msg, by rw [hreqs]; exact hp'.req⟩, hsched⟩

theorem lookup_eq_none_iff (hp : Pending h m e todo c) :
    c.retransmitReqs.lookup m = none ↔ todo = [] := by
  rcases hp.req with ⟨rfl, hnone⟩ | ⟨hdr, state, hsome, -, hcur⟩
  · simp [hnone]
  · simp [hsome, hcur.ne_nil]

end Pending

/-! ## What is missing -/

/-- The receiver has accepted the numbers `taken`, all of them at most `ms`, and needs more. -/
def Communicator.Unfinished (c : Communicator) (m : UInt32) (ms : ℕ) (taken : Finset ℕ) : Prop :=
  match c.recvMsgs.lookup m with
  | none => taken = ∅
  | some e => e.bytes < e.bound ∧ e.blockMgr.Holds taken ∧ e.blockMgr.size ≤ ms + 1

def missing (ms : ℕ) (taken : Finset ℕ) : List ℕ := (List.range (ms + 1)).filter (· ∉ taken)

def missingRuns (ms : ℕ) (taken : Finset ℕ) : ℕ :=
  (missing ms taken).countP (· + 1 ∉ missing ms taken)

section

variable {ms : ℕ} {taken : Finset ℕ} {mgr : TreeBlockMgr}

theorem missing_pairwise (ms : ℕ) (taken : Finset ℕ) : (missing ms taken).Pairwise (· < ·) :=
  List.pairwise_lt_range.filter _

theorem covers_iff_mem_missing (hrep : mgr.Rep taken) (hsize : mgr.size = ms + 1) (x : ℕ) :
    Covers Block.first Block.last mgr.tree x ↔ x ∈ missing ms taken := by
  rw [hrep.covers_iff, hsize, missing, List.mem_filter, List.mem_range]
  simp

theorem points_eq_missing (hrep : mgr.Rep taken) (hsize : mgr.size = ms + 1) :
    points Block.first Block.last mgr.tree = missing ms taken := by
  refine eq_of_pairwise_lt hrep.separated.points_pairwise (missing_pairwise ms taken) fun x => ?_
  rw [mem_points, covers_iff_mem_missing hrep hsize]

theorem length_tree_eq_missingRuns (hrep : mgr.Rep taken) (hsize : mgr.size = ms + 1) :
    mgr.tree.length = missingRuns ms taken := by
  have hsep := hrep.separated
  have hlist : mgr.tree.map (fun b => b.last - 1) =
      (missing ms taken).filter (· + 1 ∉ missing ms taken) := by
    refine eq_of_pairwise_lt ?_ ((missing_pairwise ms taken).filter _) fun x => ?_
    · rw [List.pairwise_map]
      refine hsep.2.imp_of_mem fun {a b} _ hb hab => ?_
      have := hsep.1 b hb
      omega
    · simp only [List.mem_map, List.mem_filter, decide_eq_true_eq,
        ← covers_iff_mem_missing hrep hsize]
      constructor
      · rintro ⟨b, hb, rfl⟩
        have hlt := hsep.1 b hb
        obtain ⟨-, hin, -, hout⟩ := hsep.isRun_of_mem hb
        refine ⟨hin _ (by omega) (by omega), ?_⟩
        rwa [Nat.sub_add_cancel (by omega)]
      · rintro ⟨⟨b, hb, hlo, hhi⟩, hout⟩
        refine ⟨b, hb, ?_⟩
        by_contra hne
        exact hout ⟨b, hb, by omega, by omega⟩
  rw [missingRuns, List.countP_eq_length_filter, ← hlist, List.length_map]

theorem finishFlow_found {e : LtMessageExt} (hlook : c.recvMsgs.lookup m = some e)
    (hlt : e.bytes < e.bound) (hholds : e.blockMgr.Holds taken) (hsize : e.blockMgr.size ≤ ms + 1)
    (hms : ms + 1 < 2 ^ 32) (hne : missing ms taken ≠ []) :
    ∃ mgr : TreeBlockMgr, mgr.Rep taken ∧ mgr.size = ms + 1 ∧
      c.finishFlow h m ms = .ok ((c.putRecv m { e with blockMgr := mgr }).enqueue h.destCommId
        (.retransmitRequest ⟨m, h.packetizer.commId, u32 (mgr.byteSize / sizeofBlock),
          mgr.tree.flatMap Block.bytes⟩)) := by
  obtain ⟨mgr, hgrow, hrep, hmgr⟩ := hholds.growTo hms
  have hsize' : mgr.size = ms + 1 := by omega
  have htree : mgr.tree ≠ [] := by
    intro htree
    rw [← points_eq_missing hrep hsize', htree] at hne
    exact hne rfl
  have hfin : ¬e.finishReceiving := by
    simpa [LtMessageExt.finishReceiving] using hlt
  refine ⟨mgr, hrep, hsize', ?_⟩
  unfold finishFlow
  rw [hlook]
  dsimp only
  rw [if_neg hfin, hgrow, ok_bind, if_neg (by simp [TreeBlockMgr.byteSize, htree, sizeofBlock]),
    TreeBlockMgr.serializeToBuffer_byteSize, ok_bind]
  rfl

theorem finishFlow_request (hun : c.Unfinished m ms taken) (hms : ms + 1 < 2 ^ 32)
    (hfit : ∀ e, c.recvMsgs.lookup m = some e → missing ms taken ≠ [] ∧
      headerSize + missingRuns ms taken * sizeofBlock < 2 ^ 32) :
    ∃ c' req b blocks, c.finishFlow h m ms = .ok c' ∧
      c'.txQueue = c.txQueue ++ [(h.destCommId, .retransmitRequest req)] ∧
      req.msgId = m ∧ req.commId = h.packetizer.commId ∧ req.Carries False (b :: blocks) ∧
      points Block.first Block.last (b :: blocks) = missing ms taken ∧
      4 + (headerSize + req.payload.length) < 2 ^ 32 := by
  unfold Unfinished at hun
  rcases hlook : c.recvMsgs.lookup m with _ | e
  · rw [hlook] at hun
    subst hun
    refine ⟨c.enqueue h.destCommId (.retransmitRequest _), _, ⟨0, ms + 1⟩, [],
      by simp only [finishFlow, hlook], rfl, rfl, rfl, carries_all m _ hms, ?_, ?_⟩
    · simp [points, missing, List.range_eq_range']
    · simp [Block.bytes, headerSize]
  · rw [hlook] at hun
    obtain ⟨hlt, hholds, hsize⟩ := hun
    obtain ⟨hne, hlen⟩ := hfit e hlook
    obtain ⟨mgr, hrep, hsize', hc'⟩ := finishFlow_found (h := h) hlook hlt hholds hsize hms hne
    have hcar := carries_of_rep hrep m h.packetizer.commId
    have hpoints := points_eq_missing hrep hsize'
    have hruns := length_tree_eq_missingRuns hrep hsize'
    have hbytes := TreeBlockMgr.length_flatMap_bytes mgr.tree
    rcases htree : mgr.tree with _ | ⟨b, blocks⟩
    · rw [htree] at hpoints
      exact absurd hpoints.symm hne
    · refine ⟨_, _, b, blocks, hc', rfl, rfl, rfl, htree ▸ hcar, htree ▸ hpoints, ?_⟩
      dsimp only
      rw [hbytes, hruns]
      unfold headerSize sizeofBlock at *
      omega

end

/-- In every run of polls the numbers of `l` are routed one by one and in order, each once, the
last one together with the only `FlowFinish`; then the entry is gone. A poll of the entry
routes the next number. -/
def DrainsExactly (h : Host) (m : UInt32) (l : List ℕ) (c : Communicator) : Prop :=
  ∀ trace c', Draining h m c trace c' → ∃ todo,
    trace.filter (· ≠ ([], 0)) ++ schedule todo = schedule l ∧
    (c'.retransmitReqs.lookup m = none ↔ todo = []) ∧
    ∀ hdr state elapsed, c'.retransmitReqs.begin? = some (m, hdr, state) →
      ∃ q rest c'', todo = q :: rest ∧ c'.pollRetransmitRequest h false elapsed = .ok c'' ∧
        c'.emits h m c'' = ([q], if rest = [] then 1 else 0)

/-- A request that `FinishFlow` makes, framed, decoded and drained, makes the sender route
exactly the missing packets, provided something is missing and the request fits into
`2^32` bytes. -/
theorem retransmission_covers_missing (cfg : Config) (p : Bool) (m : UInt32) (ms : ℕ)
    (hms : ms < 2 ^ 32 - 1) (taken : Finset ℕ) (receiver sender : Communicator)
    (hun : receiver.Unfinished m ms taken)
    (hfit : ∀ e, receiver.recvMsgs.lookup m = some e → missing ms taken ≠ [] ∧
      headerSize + missingRuns ms taken * sizeofBlock < 2 ^ 32)
    (hkeyed : sender.Keyed) (e : LtMessageExt)
    (hmsg : sender.retransmittingMsgs.lookup m = some e) :
    ∃ receiver' req body sender',
      receiver.finishFlow (cfg.host !p) m ms = .ok receiver' ∧
      receiver'.txQueue =
        receiver.txQueue ++ [((cfg.host !p).destCommId, .retransmitRequest req)] ∧
      receiveFrame (sentBytes req.outBuffer) = some body ∧
      (do sender.requestRetransmit (← decode body)) = .ok sender' ∧
      DrainsExactly (cfg.host p) m (missing ms taken) sender' := by
  obtain ⟨receiver', req, b, blocks, hfinish, hq, hid, hcomm, hcar, hpoints, hlen⟩ :=
    finishFlow_request (h := cfg.host !p) hun (by omega) hfit
  have hdest := State.Good.dest_eq cfg p
  have hcomm' : req.commId = (cfg.host p).destCommId := hcomm
  have hlt := (cfg.commId !p).toNat_lt
  have hhost : (cfg.host p).destCommId = ((cfg.commId !p).toNat : ℤ) := rfl
  have hfits : req.Fits := ⟨by omega, by omega, hcar.numBlocks_lt⟩
  have hdecode : decode (req.header ++ req.payload) = .ok req :=
    hfits.decode_header_append req.payload
  have hpos : 0 < req.numBlocks := by
    rw [hcar.numBlocks_eq]
    exact Nat.succ_pos _
  have hblock : req.block 0 = .ok b := by
    obtain ⟨_, hok, rfl⟩ := (@RetransmitRequest.Carries.block _ _ [] _ _ hcar).exists_ok not_false
    exact hok
  refine ⟨receiver', req, _, { sender with
    retransmitReqs := sender.retransmitReqs.insert req.msgId (req, ⟨0, b.first⟩) }, hfinish, hq,
    receiveFrame_sentBytes hlen, ?_, ?_⟩
  · rw [hdecode, ok_bind]
    unfold requestRetransmit
    rw [require_bind _ hpos, hblock]
    rfl
  · have hpend : Pending (cfg.host p) m e (missing ms taken) { sender with
        retransmitReqs := sender.retransmitReqs.insert req.msgId (req, ⟨0, b.first⟩) } := by
      refine ⟨⟨fun k hdr state hl => ?_, hkeyed.msgs⟩, hmsg,
        .inr ⟨req, ⟨0, b.first⟩, ?_, hcomm', hpoints ▸ hcar.cursor⟩⟩
      · rw [IntMap.lookup_insert_ite] at hl
        split_ifs at hl with hk
        · cases hl
          exact hk.symm
        · exact hkeyed.reqs k hdr state hl
      · rw [IntMap.lookup_insert_ite, if_pos hid.symm]
    intro trace c' hd
    obtain ⟨todo, hp', hsched⟩ := hpend.draining hdest hd
    refine ⟨todo, hsched, hp'.lookup_eq_none_iff, fun hdr state elapsed hb => ?_⟩
    obtain ⟨q, rest, c'', htodo, hpoll, hem, -⟩ := hp'.poll hdest hb elapsed
    exact ⟨q, rest, c'', htodo, hpoll, hem⟩

/-- A receive of five bytes under `maxSegment = 24`, of which nothing has come. -/
theorem retransmission_covers_missing_new : ∃ receiver' req body sender',
    ({ Communicator.init with
      recvMsgs := (∅ : IntMap LtMessageExt).insert 7 (.new ⟨7, 0, 5, 0⟩) } :
        Communicator).finishFlow
        (onePacketConfig.host true) 7 1 = .ok receiver' ∧
    receiver'.txQueue = [((onePacketConfig.host true).destCommId, .retransmitRequest req)] ∧
    receiveFrame (sentBytes req.outBuffer) = some body ∧
    (do ({ Communicator.init with
      retransmittingMsgs := (∅ : IntMap LtMessageExt).insert 7 (.new ⟨7, 0, 5, 0⟩) } :
        Communicator).requestRetransmit (← decode body)) = .ok sender' ∧
    DrainsExactly (onePacketConfig.host false) 7 [0, 1] sender' :=
  retransmission_covers_missing onePacketConfig false 7 1 (by decide) ∅
    { Communicator.init with recvMsgs := (∅ : IntMap LtMessageExt).insert 7 (.new ⟨7, 0, 5, 0⟩) }
    { Communicator.init with
      retransmittingMsgs := (∅ : IntMap LtMessageExt).insert 7 (.new ⟨7, 0, 5, 0⟩) }
    ⟨by decide, .inr ⟨rfl, rfl⟩, by decide⟩ (fun _ _ => ⟨by decide, by decide⟩)
    ⟨fun _ _ _ hl => by simp [Communicator.init] at hl, fun k e hl => by
      rw [IntMap.lookup_insert_ite] at hl
      split_ifs at hl with hk
      · cases hl
        exact hk.symm
      · simp at hl⟩
    (.new ⟨7, 0, 5, 0⟩) (by decide)

/-! ## Requests too long for their length -/

/-- The odd numbers below `2 * n - 1`. -/
def odds (n : ℕ) : Finset ℕ := (Finset.range (n - 1)).image (2 * · + 1)

theorem mem_odds {n x : ℕ} : x ∈ odds n ↔ x < 2 * n - 1 ∧ x % 2 = 1 := by
  unfold odds
  rw [Finset.mem_image]
  constructor
  · rintro ⟨i, hi, rfl⟩
    rw [Finset.mem_range] at hi
    omega
  · rintro ⟨hlt, hodd⟩
    exact ⟨x / 2, Finset.mem_range.mpr (by omega), by omega⟩

/-- The manager of `2 * n - 1` numbers that has taken the odd ones. -/
def evens (n : ℕ) : TreeBlockMgr :=
  ⟨2 * n - 1, n - 1, (List.range n).map fun i => ⟨2 * i, 2 * i + 1⟩⟩

theorem evens_rep {n : ℕ} (hpos : 0 < n) (hlt : 2 * n - 1 < 2 ^ 32) :
    (evens n).Rep (odds n) where
  size_pos := by
    unfold evens
    dsimp only
    omega
  size_lt := hlt
  separated := by
    refine ⟨fun b hb => ?_, List.pairwise_map.mpr (List.pairwise_lt_range.imp fun h => ?_)⟩
    · obtain ⟨i, -, rfl⟩ := List.mem_map.mp hb
      exact Nat.lt_succ_self _
    · dsimp only
      omega
  covers_iff x := by
    rw [mem_odds]
    constructor
    · rintro ⟨b, hb, hlo, hhi⟩
      obtain ⟨i, hi, rfl⟩ := List.mem_map.mp hb
      rw [List.mem_range] at hi
      simp only [evens] at *
      omega
    · rintro ⟨hx, hodd⟩
      simp only [evens] at hx
      exact ⟨⟨2 * (x / 2), 2 * (x / 2) + 1⟩,
        List.mem_map.mpr ⟨x / 2, List.mem_range.mpr (by omega), rfl⟩,
        by dsimp only; omega, by dsimp only; omega⟩
  used_eq := by
    unfold odds
    rw [Finset.card_image_of_injective _ fun i j h => by simpa using h, Finset.card_range]
    rfl
  taken_lt x hx := (mem_odds.mp hx).1

/-- A receive of `2 * n - 1` packets of four bytes that lacks every other one. -/
def lacksEvens (n : ℕ) : LtMessageExt where
  msgId := 7
  buf := 0
  size := 4 * (2 * n - 1)
  use := 0
  bytes := 4 * (n - 1)
  bound := 4 * (2 * n - 1)
  stopped := false
  blockMgr := evens n

theorem missing_odds (n : ℕ) : missing (2 * n - 2) (odds n) ≠ [] := by
  refine List.ne_nil_of_mem (a := 0) (List.mem_filter.mpr ⟨List.mem_range.mpr (by omega), ?_⟩)
  simp [mem_odds]

theorem missingRuns_odds {n : ℕ} (hpos : 0 < n) (hlt : 2 * n - 1 < 2 ^ 32) :
    missingRuns (2 * n - 2) (odds n) = n := by
  have hsize : (evens n).size = 2 * n - 2 + 1 := by
    unfold evens
    dsimp only
    omega
  rw [← length_tree_eq_missingRuns (evens_rep hpos hlt) hsize, evens, List.length_map,
    List.length_range]

/-- With `n` runs missing and `16 + 8 * n = 2^32` the request does not arrive. -/
theorem finishFlow_wrapped {h : Host} {n : ℕ} {c : Communicator}
    (hn : headerSize + n * sizeofBlock = 2 ^ 32)
    (hlook : c.recvMsgs.lookup 7 = some (lacksEvens n)) :
    c.Unfinished 7 (2 * n - 2) (odds n) ∧ missing (2 * n - 2) (odds n) ≠ [] ∧
    ∃ c' req, c.finishFlow h 7 (2 * n - 2) = .ok c' ∧
      c'.txQueue = c.txQueue ++ [(h.destCommId, .retransmitRequest req)] ∧
      receiveFrame (sentBytes req.outBuffer) = none := by
  unfold headerSize sizeofBlock at hn
  have hrep := evens_rep (n := n) (by omega) (by omega)
  have hbytes : (lacksEvens n).bytes < (lacksEvens n).bound := by
    unfold lacksEvens
    dsimp only
    omega
  have hsize : (lacksEvens n).blockMgr.size ≤ 2 * n - 2 + 1 := by
    unfold lacksEvens evens
    dsimp only
    omega
  have hun : c.Unfinished 7 (2 * n - 2) (odds n) := by
    unfold Unfinished
    rw [hlook]
    exact ⟨hbytes, .inl hrep, hsize⟩
  have hne := missing_odds n
  obtain ⟨mgr, hrep', hsize', hc'⟩ :=
    finishFlow_found (h := h) hlook hbytes (.inl hrep) hsize (by omega) hne
  refine ⟨hun, hne, _, _, hc', rfl, receiveFrame_wrapped ?_⟩
  dsimp only
  rw [TreeBlockMgr.length_flatMap_bytes, length_tree_eq_missingRuns hrep' hsize',
    missingRuns_odds (by omega) (by omega)]
  unfold headerSize sizeofBlock
  omega

theorem wrapped_request_lost : ∃ (c : Communicator) (ms : ℕ) (taken : Finset ℕ),
    ms < 2 ^ 32 - 1 ∧ c.Unfinished 7 ms taken ∧ missing ms taken ≠ [] ∧
    ∃ c' req, c.finishFlow (onePacketConfig.host true) 7 ms = .ok c' ∧
      c'.txQueue = [((onePacketConfig.host true).destCommId, .retransmitRequest req)] ∧
      receiveFrame (sentBytes req.outBuffer) = none :=
  ⟨{ Communicator.init with
      recvMsgs := (∅ : IntMap LtMessageExt).insert 7 (lacksEvens (2 ^ 29 - 2)) },
    2 * (2 ^ 29 - 2) - 2, odds (2 ^ 29 - 2), by decide,
    finishFlow_wrapped (by decide) (by rw [IntMap.lookup_insert_ite, if_pos rfl])⟩

end Mlt
