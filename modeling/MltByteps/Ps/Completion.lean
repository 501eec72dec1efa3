import MltByteps.Ps.Request

/-! Requests complete once. A request that is sent to some server is counted down: the responses
counted so far, the slices and messages still under way and the message in the receiving thread
add up to the number of servers, so the callback runs with the last of them. -/

namespace Ps

variable {V : Type}

/-! ## The slices of a request -/

section Slices

variable {slices : List (Option (KVPairs V))}

theorem length_numbered_aux (k : ℕ) :
    ((slices.zipIdx k).filterMap fun x => x.1.map (x.2, ·)).length +
      slices.countP Option.isNone = slices.length := by
  induction slices generalizing k with
  | nil => rfl
  | cons x slices ih =>
    cases x with
    | none =>
      rw [List.zipIdx_cons, List.filterMap_cons_none rfl, List.countP_cons_of_pos rfl,
        List.length_cons, ← Nat.add_assoc, ih]
    | some kvs =>
      simp only [List.zipIdx_cons, List.filterMap_cons, Option.map_some, List.length_cons]
      rw [List.countP_cons_of_neg (by simp), Nat.add_right_comm, ih]

theorem length_numbered (slices : List (Option (KVPairs V))) :
    (numbered slices).length + slices.countP Option.isNone = slices.length :=
  length_numbered_aux 0

theorem length_positionsFrom {last pos : ℕ} {rest : List ℕ} {ranges : List Range} {l : List ℕ}
    (h : positionsFrom last rest pos ranges = .ok l) : l.length = ranges.length + 1 := by
  induction ranges generalizing last rest pos l with
  | nil =>
    cases h
    rfl
  | cons r ranges ih =>
    obtain ⟨-, h⟩ := require_bind_eq_ok.mp h
    obtain ⟨tail, htail, h⟩ := bind_eq_ok.mp h
    cases h
    rw [List.length_cons, ih htail, List.length_cons]

theorem length_sliceLoop {send : KVPairs V} {k valBegin : ℕ} {pos : List ℕ}
    (h : sliceLoop send k valBegin pos = .ok slices) : slices.length = pos.length - 1 := by
  induction pos generalizing valBegin slices with
  | nil =>
    cases h
    rfl
  | cons first pos ih =>
    cases pos with
    | nil =>
      cases h
      rfl
    | cons last pos =>
      have htail : ∀ {v : ℕ} {x : Option (KVPairs V)} {l : List (Option (KVPairs V))},
          (do return x :: (← sliceLoop send k v (last :: pos))) = (.ok l : Except Fault _) →
          l.length = (first :: last :: pos).length - 1 := by
        intro v x l hl
        obtain ⟨tail, ht, hl⟩ := bind_eq_ok.mp hl
        cases hl
        rw [List.length_cons, ih ht]
        rfl
      unfold sliceLoop at h
      split_ifs at h with hskip hlens
      · exact htail h
      · obtain ⟨keys, -, h⟩ := bind_eq_ok.mp h
        obtain ⟨lens, -, h⟩ := bind_eq_ok.mp h
        obtain ⟨vals, -, h⟩ := bind_eq_ok.mp h
        exact htail h
      · obtain ⟨keys, -, h⟩ := bind_eq_ok.mp h
        obtain ⟨vals, -, h⟩ := bind_eq_ok.mp h
        exact htail h

theorem length_defaultSlicer {send : KVPairs V} {ranges : List Range}
    (h : defaultSlicer send ranges = .ok slices) : slices.length = ranges.length := by
  obtain ⟨pos, hpos, h⟩ := bind_eq_ok.mp h
  obtain ⟨-, h⟩ := require_bind_eq_ok.mp h
  have hlen : pos.length = ranges.length + 1 := by
    cases ranges with
    | nil =>
      cases hpos
      rfl
    | cons r ranges => exact length_positionsFrom hpos
  split_ifs at h with hkeys hlens
  · cases h
    exact List.length_map _
  · obtain ⟨-, h⟩ := require_bind_eq_ok.mp h
    rw [length_sliceLoop h, hlen, Nat.add_sub_cancel]
  · obtain ⟨-, h⟩ := require_bind_eq_ok.mp h
    rw [length_sliceLoop h, hlen, Nat.add_sub_cancel]

end Slices

/-! ## RunCallback -/

theorem Slot.runCallback_spec [Zero V] {cfg : Config} {slot slot' : Slot V} {pc : CallbackPc}
    {pc' : Option CallbackPc} (h : slot.runCallback cfg pc = .ok (pc', slot')) :
    slot'.log = slot.log ++ (if pc' = none then [.returned] else []) ∧
      (slot'.recvKvs = slot.recvKvs ∨ pc' = some .erase ∧ slot'.recvKvs = []) ∧
      (pc = .erase → pc' = none) := by
  cases pc with
  | find =>
    unfold runCallback at h
    dsimp only at h
    split_ifs at h
    · cases h
      exact ⟨(List.append_nil _).symm, .inl rfl, fun h => nomatch h⟩
    · cases h
      exact ⟨rfl, .inl rfl, fun h => nomatch h⟩
  | call =>
    unfold runCallback at h
    rcases hc : slot.callback with _ | _ | keys
    · rw [hc] at h
      cases h
      exact ⟨(List.append_nil _).symm, .inl rfl, fun h => nomatch h⟩
    · rw [hc] at h
      cases h
      exact ⟨(List.append_nil _).symm, .inl rfl, fun h => nomatch h⟩
    · rw [hc] at h
      obtain ⟨out, -, h⟩ := bind_eq_ok.mp h
      cases h
      exact ⟨(List.append_nil _).symm, .inr ⟨rfl, rfl⟩, fun h => nomatch h⟩
  | erase =>
    cases h
    exact ⟨rfl, .inl rfl, fun _ => rfl⟩

/-! ## The count of a request -/

def Call.unsent : Call V → List (ℕ × KVPairs V)
  | .loop _ slices => slices
  | _ => []

def dataOf (msgs : List (Message V)) : List (KVPairs V) := msgs.flatMap fun m => m.data.toList

def Receiver.unread : Receiver V → List (Message V)
  | .process msg => [msg]
  | _ => []

/-- The events of a request with `k` slices and messages under way, the one in the receiving
thread included. -/
def Receiver.runs (k : ℕ) : Receiver V → List (Event V)
  | .runCallback _ _ => [.runCallback false]
  | .addResponse _ => if k = 1 then [.runCallback false, .returned] else []
  | _ => if k = 0 then [.runCallback false, .returned] else []

namespace Request

def unsent (r : Request V) : List (ℕ × KVPairs V) := r.calls.flatMap Call.unsent

def outstanding (r : Request V) : ℕ :=
  r.unsent.length + r.requests.length + r.responses.length + r.queue.length +
    r.receiver.message?.toList.length

def Collecting (r : Request V) : Prop :=
  .returned ∉ r.slot.log ∧ ∀ msg, r.receiver ≠ .runCallback msg .erase

structure Idle (r : Request V) : Prop where
  requests : r.requests = []
  responses : r.responses = []
  queue : r.queue = []
  receiver : r.receiver = .waiting
  recvKvs : r.slot.recvKvs = []
  answers : r.answers = []

/-- A request of which some slice is not empty, after it has been cut. -/
structure Gathering (cfg : Config) (push : Bool) (slices : List (Option (KVPairs V)))
    (r : Request V) : Prop where
  nonempty : numbered slices ≠ []
  calls : r.calls = [] ∨ ∃ l, r.calls = [.loop push l]
  tracker : ∃ c, r.tracker = some (cfg.numServers, c) ∧ c + r.outstanding = cfg.numServers
  log : r.slot.log = .sliced push slices :: r.receiver.runs r.outstanding
  last : ∀ msg pc, r.receiver = .runCallback msg pc → r.outstanding = 1
  servers : (r.answers.map Message.server ++ r.requests.map Message.server ++
    r.unsent.map Prod.fst).Perm ((numbered slices).map Prod.fst)
  unsent : ∀ x ∈ r.unsent, x ∈ numbered slices
  requests : ∀ m ∈ r.requests, m.push = push ∧
    ∃ kvs, (m.server, kvs) ∈ numbered slices ∧ m.data = kvs.toData
  replies : ∀ m ∈ r.responses ++ r.queue ++ r.receiver.message?.toList,
    m.request = false ∧ m.push = push
  data : push = false → r.Collecting → (r.slot.recvKvs ++
    dataOf (r.receiver.unread ++ r.queue ++ r.responses)).Perm (dataOf r.answers)

structure Fresh (r : Request V) : Prop extends r.Idle where
  calls : r.calls = []
  tracker : r.tracker = none
  log : r.slot.log = []
  callback : r.slot.callback = none

/-- Where a request is in its life. One with empty slices only is at `pc` of its callback, or the
callback has returned. -/
inductive Phase (V : Type)
  | fresh
  | adding (push : Bool) (kvs : KVPairs V) (callback : Option Callback)
  | sending (push : Bool) (kvs : KVPairs V)
  | skipped (push : Bool) (slices : List (Option (KVPairs V))) (pc : Option CallbackPc)
  | gathering (push : Bool) (slices : List (Option (KVPairs V)))

inductive At (cfg : Config) (r : Request V) : Phase V → Prop
  | fresh : r.Fresh → At cfg r .fresh
  | adding {push kvs callback} : r.Idle → r.calls = [.addCallback push kvs callback] →
      r.tracker = some (cfg.numServers, 0) → r.slot.log = [] →
      At cfg r (.adding push kvs callback)
  | sending {push kvs} : r.Idle → r.calls = [.send push kvs] →
      r.tracker = some (cfg.numServers, 0) → r.slot.log = [] → At cfg r (.sending push kvs)
  | skipped {push slices pc} : r.Idle → r.calls = (pc.map Call.runCallback).toList →
      r.tracker = some (cfg.numServers, cfg.numServers) →
      r.slot.log =
        .sliced push slices :: .runCallback true :: (if pc = none then [.returned] else []) →
      (∀ x ∈ slices, x = none) → At cfg r (.skipped push slices pc)
  | gathering {push slices} : r.Gathering cfg push slices → At cfg r (.gathering push slices)

def Inv (cfg : Config) (r : Request V) : Prop := ∃ phase, r.At cfg phase

section Gathering

variable {cfg : Config} {push : Bool} {slices : List (Option (KVPairs V))} {r : Request V}
  {pre post : List (Message V)} {m : Message V}

theorem dataOf_append (l l' : List (Message V)) : dataOf (l ++ l') = dataOf l ++ dataOf l' :=
  List.flatMap_append

namespace Gathering

theorem calls_loop (h : r.Gathering cfg push slices) {pre post : List (Call V)} {c : Call V}
    (hc : r.calls = pre ++ c :: post) : pre = [] ∧ post = [] ∧ ∃ l, c = .loop push l := by
  rcases h.calls with hnil | ⟨l, hl⟩
  · simp [hnil] at hc
  · rw [hl] at hc
    obtain ⟨rfl, hc⟩ := List.append_eq_singleton_iff.mp hc.symm |>.resolve_right (by simp)
    obtain ⟨rfl, rfl⟩ := List.cons_eq_cons.mp hc
    exact ⟨rfl, rfl, l, rfl⟩

theorem send (h : r.Gathering cfg push slices) {i : ℕ} {kvs : KVPairs V}
    {l : List (ℕ × KVPairs V)} (hc : r.calls = [.loop push ((i, kvs) :: l)])
    (hi : m.server = i) (hp : m.push = push) (hd : m.data = kvs.toData) :
    ({ r with calls := [.loop push l], requests := r.requests ++ [m] } : Request V).Gathering
      cfg push slices := by
  have hunsent : r.unsent = (i, kvs) :: l := by simp [Request.unsent, hc, Call.unsent]
  have hout : ({ r with calls := [.loop push l], requests := r.requests ++ [m] } :
      Request V).outstanding = r.outstanding := by
    unfold outstanding
    rw [hunsent]
    simp [Request.unsent, Call.unsent]
    omega
  refine { h with
    calls := .inr ⟨l, rfl⟩
    tracker := hout ▸ h.tracker
    log := hout ▸ h.log
    last := hout ▸ h.last
    servers := ?_
    unsent := ?_
    requests := ?_ }
  · have hs := h.servers
    rw [hunsent] at hs
    simpa [Request.unsent, Call.unsent, hi] using hs
  · intro x hx
    refine h.unsent x ?_
    rw [hunsent]
    exact List.mem_cons_of_mem _ (by simpa [Request.unsent, Call.unsent] using hx)
  · intro m' hm'
    rcases List.mem_append.mp hm' with hm' | hm'
    · exact h.requests m' hm'
    · rw [List.mem_singleton.mp hm']
      exact ⟨hp, kvs, h.unsent _ (by rw [hunsent, hi]; exact List.mem_cons_self), hd⟩

theorem finish (h : r.Gathering cfg push slices) (hc : r.calls = [.loop push []]) :
    ({ r with calls := [] } : Request V).Gathering cfg push slices := by
  have hunsent : r.unsent = [] := by simp [Request.unsent, hc, Call.unsent]
  have hout : ({ r with calls := [] } : Request V).outstanding = r.outstanding := by
    unfold outstanding
    rw [hunsent]
    rfl
  refine { h with
    calls := .inl rfl
    tracker := hout ▸ h.tracker
    log := hout ▸ h.log
    last := hout ▸ h.last
    servers := ?_
    unsent := fun _ hx => nomatch hx }
  have hs := h.servers
  rw [hunsent] at hs
  exact hs

theorem answer (h : r.Gathering cfg push slices) {res : Message V}
    (hreq : r.requests = pre ++ m :: post) (hres : res.request = false)
    (hserver : res.server = m.server) (hpush : res.push = m.push) :
    ({ r with
      requests := pre ++ post
      responses := r.responses ++ [res]
      answers := r.answers ++ [res] } : Request V).Gathering cfg push slices := by
  have hout : ({ r with
      requests := pre ++ post
      responses := r.responses ++ [res]
      answers := r.answers ++ [res] } : Request V).outstanding = r.outstanding := by
    unfold outstanding
    rw [hreq]
    simp [Request.unsent]
    omega
  refine { h with
    tracker := hout ▸ h.tracker
    log := hout ▸ h.log
    last := hout ▸ h.last
    servers := ?_
    requests := fun m' hm' => h.requests m' ?_
    replies := ?_
    data := fun hp hcol => ?_ }
  · have hs := h.servers
    rw [hreq] at hs
    refine List.Perm.trans ?_ hs
    simp only [List.map_append, List.map_cons, List.map_nil, hserver, List.append_assoc,
      List.cons_append, List.nil_append]
    exact List.Perm.append_left _ List.perm_middle.symm
  · rw [hreq]
    rcases List.mem_append.mp hm' with hm' | hm'
    · exact List.mem_append_left _ hm'
    · exact List.mem_append_right _ (List.mem_cons_of_mem _ hm')
  · intro m' hm'
    have hm : m.push = push := (h.requests m (by simp [hreq])).1
    simp only [List.mem_append, List.mem_singleton, or_assoc] at hm'
    rcases hm' with hm' | rfl | hm'
    · exact h.replies m' (by simp [hm'])
    · exact ⟨hres, hpush.trans hm⟩
    · exact h.replies m' (by simp only [List.mem_append, or_assoc]; exact .inr hm')
  · have hd := h.data hp hcol
    simp only [dataOf_append, ← List.append_assoc] at hd ⊢
    exact hd.append_right _

theorem deliver (h : r.Gathering cfg push slices) (hres : r.responses = pre ++ m :: post) :
    ({ r with responses := pre ++ post, queue := r.queue ++ [m] } : Request V).Gathering
      cfg push slices := by
  have hout : ({ r with responses := pre ++ post, queue := r.queue ++ [m] } :
      Request V).outstanding = r.outstanding := by
    unfold outstanding
    rw [hres]
    simp [Request.unsent]
    omega
  refine { h with
    tracker := hout ▸ h.tracker
    log := hout ▸ h.log
    last := hout ▸ h.last
    replies := fun m' hm' => h.replies m' ?_
    data := fun hp hcol => (List.Perm.append_left _ ?_).trans (h.data hp hcol) }
  · rw [hres]
    simp only [List.mem_append, List.mem_cons, List.not_mem_nil, or_false] at hm' ⊢
    tauto
  · rw [hres]
    refine List.Perm.flatMap_right _ ?_
    simp only [List.append_assoc, List.singleton_append]
    exact List.Perm.append_left _ (List.Perm.append_left _ List.perm_middle.symm)

theorem pop (h : r.Gathering cfg push slices) {queue : List (Message V)}
    (hr : r.receiver = .waiting) (hq : r.queue = m :: queue) :
    ({ r with queue, receiver := .process m } : Request V).Gathering cfg push slices := by
  have hout : ({ r with queue, receiver := .process m } : Request V).outstanding =
      r.outstanding := by
    unfold outstanding
    rw [hr, hq]
    simp [Request.unsent, Receiver.message?]
    omega
  refine { h with
    tracker := hout ▸ h.tracker
    log := ?_
    last := fun _ _ he => nomatch he
    replies := fun m' hm' => h.replies m' ?_
    data := fun hp hcol => ?_ }
  · rw [hout, h.log, hr]
    rfl
  · rw [hr, hq]
    simp only [Receiver.message?, Option.toList_some, Option.toList_none, List.mem_append,
      List.mem_cons, List.not_mem_nil, or_false] at hm' ⊢
    tauto
  · have hd := h.data hp ⟨hcol.1, fun msg he => by rw [hr] at he; cases he⟩
    rw [hr, hq] at hd
    exact hd

theorem process (h : r.Gathering cfg push slices) (hr : r.receiver = .process m) :
    ({ r with
      slot := { r.slot with recvKvs := r.slot.recvKvs ++ if m.push then [] else m.data.toList }
      receiver := .numResponse m } : Request V).Gathering cfg push slices := by
  have hout : ({ r with
      slot := { r.slot with recvKvs := r.slot.recvKvs ++ if m.push then [] else m.data.toList }
      receiver := .numResponse m } : Request V).outstanding = r.outstanding := by
    unfold outstanding
    rw [hr]
    rfl
  have hm : m.push = push := (h.replies m (by simp [hr, Receiver.message?])).2
  refine { h with
    tracker := hout ▸ h.tracker
    log := ?_
    last := fun _ _ he => nomatch he
    replies := fun m' hm' => h.replies m' ?_
    data := fun hp hcol => ?_ }
  · rw [hout, h.log, hr]
    rfl
  · rw [hr]
    exact hm'
  · have hd := h.data hp ⟨hcol.1, fun msg he => by rw [hr] at he; cases he⟩
    rw [hr] at hd
    rw [hm, hp, if_neg Bool.false_ne_true]
    simpa [dataOf, Receiver.unread] using hd

theorem numResponse_iff (h : r.Gathering cfg push slices) (hm : r.receiver.message? = some m) :
    (r.tracker.getD (0, 0)).2 + 1 = cfg.numServers ↔ r.outstanding = 1 := by
  obtain ⟨c, hc, hsum⟩ := h.tracker
  have hpos : 0 < r.outstanding := by
    unfold outstanding
    rw [hm]
    simp
  rw [hc, Option.getD_some]
  dsimp only
  omega

theorem setReceiver_outstanding {r : Request V} {receiver : Receiver V} (slot : Slot V)
    (hm : receiver.message? = r.receiver.message?) :
    ({ r with slot, receiver } : Request V).outstanding = r.outstanding := by
  unfold outstanding
  rw [hm]
  rfl

theorem last_step (h : r.Gathering cfg push slices) (hr : r.receiver = .numResponse m)
    (hlast : r.outstanding = 1) :
    ({ r with
      slot := r.slot.record (.runCallback false)
      receiver := .runCallback m .find } : Request V).Gathering cfg push slices := by
  have hout : ({ r with
      slot := r.slot.record (.runCallback false)
      receiver := .runCallback m .find } : Request V).outstanding = r.outstanding :=
    setReceiver_outstanding _ (by rw [hr]; rfl)
  refine { h with
    tracker := hout ▸ h.tracker
    log := ?_
    last := fun _ _ _ => hout.trans hlast
    replies := fun m' hm' => h.replies m' ?_
    data := fun hp hcol => ?_ }
  · change r.slot.log ++ [.runCallback false] = _
    rw [h.log, hr]
    simp [Receiver.runs, hlast]
  · rw [hr]
    exact hm'
  · have hd := h.data hp ⟨fun he => hcol.1 (List.mem_append_left _ he),
      fun msg he => by rw [hr] at he; cases he⟩
    rw [hr] at hd
    exact hd

theorem not_last_step (h : r.Gathering cfg push slices) (hr : r.receiver = .numResponse m)
    (hlast : r.outstanding ≠ 1) :
    ({ r with receiver := .addResponse m } : Request V).Gathering cfg push slices := by
  have hout : ({ r with receiver := .addResponse m } : Request V).outstanding = r.outstanding :=
    setReceiver_outstanding r.slot (by rw [hr]; rfl)
  have hpos : r.outstanding ≠ 0 := by
    unfold outstanding
    rw [hr]
    simp [Receiver.message?]
  refine { h with
    tracker := hout ▸ h.tracker
    log := ?_
    last := fun _ _ he => nomatch he
    replies := fun m' hm' => h.replies m' ?_
    data := fun hp hcol => ?_ }
  · change r.slot.log = _
    rw [hout, h.log, hr]
    simp [Receiver.runs, hlast, hpos]
  · rw [hr]
    exact hm'
  · have hd := h.data hp ⟨hcol.1, fun msg he => by rw [hr] at he; cases he⟩
    rw [hr] at hd
    exact hd

theorem run_step [Zero V] (h : r.Gathering cfg push slices) {pc : CallbackPc}
    {pc' : Option CallbackPc} {slot : Slot V} (hr : r.receiver = .runCallback m pc)
    (hrun : r.slot.runCallback cfg pc = .ok (pc', slot)) :
    ({ r with slot, receiver := pc'.elim (.addResponse m) (.runCallback m) } :
      Request V).Gathering cfg push slices := by
  obtain ⟨hlog, hkvs, herase⟩ := Slot.runCallback_spec hrun
  have hmsg : (pc'.elim (.addResponse m) (.runCallback m) : Receiver V).message? = some m := by
    cases pc' <;> rfl
  have hout : ({ r with slot, receiver := pc'.elim (.addResponse m) (.runCallback m) } :
      Request V).outstanding = r.outstanding :=
    setReceiver_outstanding slot (by rw [hmsg, hr]; rfl)
  have hone := h.last m pc hr
  refine { h with
    tracker := hout ▸ h.tracker
    log := ?_
    last := fun _ _ _ => hout.trans hone
    replies := fun m' hm' => h.replies m' ?_
    data := fun hp hcol => ?_ }
  · change slot.log = _
    rw [hout, hlog, h.log, hr, hone]
    cases pc' <;> rfl
  · change m' ∈ r.responses ++ r.queue ++ (pc'.elim (.addResponse m) (.runCallback m) :
      Receiver V).message?.toList at hm'
    rw [hmsg] at hm'
    rw [hr]
    exact hm'
  · obtain ⟨hret, hne⟩ := hcol
    change .returned ∉ slot.log at hret
    cases pc' with
    | none => exact absurd (hlog ▸ List.mem_append_right _ List.mem_cons_self) hret
    | some pc' =>
      have hkeep : slot.recvKvs = r.slot.recvKvs :=
        hkvs.resolve_right fun he => hne m (by rw [← Option.some.inj he.1]; rfl)
      have hd := h.data hp ⟨fun he => hret (hlog ▸ List.mem_append_left _ he), fun msg he => by
        rw [hr] at he
        cases he
        cases herase rfl⟩
      rw [hr] at hd
      change (slot.recvKvs ++ _).Perm _
      rw [hkeep]
      exact hd

theorem addResponse_step (h : r.Gathering cfg push slices) (hr : r.receiver = .addResponse m) :
    ({ r with
      tracker := if m.request then r.tracker else countResponses 1 r.tracker
      receiver := .waiting } : Request V).Gathering cfg push slices := by
  obtain ⟨hm, -⟩ := h.replies m (by simp [hr, Receiver.message?])
  obtain ⟨c, hc, hsum⟩ := h.tracker
  have hout : r.outstanding = ({ r with
      tracker := if m.request then r.tracker else countResponses 1 r.tracker
      receiver := .waiting } : Request V).outstanding + 1 := by
    unfold outstanding
    rw [hr]
    rfl
  refine { h with
    tracker := ⟨c + 1, ?_, ?_⟩
    log := ?_
    last := fun _ _ he => nomatch he
    replies := fun m' hm' => h.replies m' ?_
    data := fun hp hcol => ?_ }
  · change (if m.request then r.tracker else countResponses 1 r.tracker) = _
    rw [hm, if_neg Bool.false_ne_true, hc]
    rfl
  · rw [← hsum, hout]
    omega
  · change r.slot.log = _
    rw [h.log, hr, hout]
    simp [Receiver.runs]
  · exact List.mem_append_left _ (by simpa [Receiver.message?] using hm')
  · have hd := h.data hp ⟨hcol.1, fun msg he => by rw [hr] at he; cases he⟩
    rw [hr] at hd
    exact hd

theorem step [Zero V] {Issues : Bool → KVPairs V → Option Callback → Buffers V → Prop}
    {Answers : Message V → Message V → Prop} {r' : Request V} (h : r.Gathering cfg push slices)
    (hstep : Request.Step cfg Issues Answers r r') : r'.Gathering cfg push slices := by
  cases hstep with
  | issue _ _ _ _ _ hnone =>
    obtain ⟨c, hc, -⟩ := h.tracker
    rw [hnone] at hc
    cases hc
  | addCallback hc | skipAll hc | slice hc | runInSend hc =>
    obtain ⟨-, -, l, hl⟩ := h.calls_loop hc
    cases hl
  | send hc hp hd =>
    obtain ⟨rfl, rfl, l, hl⟩ := h.calls_loop hc
    cases hl
    exact h.send hc rfl hp hd
  | finish hc =>
    obtain ⟨rfl, rfl, l, hl⟩ := h.calls_loop hc
    cases hl
    exact h.finish hc
  | answer hreq _ hres hserver hpush => exact h.answer hreq hres hserver hpush
  | deliver hres => exact h.deliver hres
  | pop hr hq => exact h.pop hr hq
  | process hr => exact h.process hr
  | last hr hnum => exact h.last_step hr ((h.numResponse_iff (by rw [hr]; rfl)).mp hnum)
  | notLast hr hnum =>
    exact h.not_last_step hr fun he => hnum ((h.numResponse_iff (by rw [hr]; rfl)).mpr he)
  | runInReceiver hr hrun => exact h.run_step hr hrun
  | addResponse hr => exact h.addResponse_step hr

end Gathering

end Gathering

section Inv

variable {cfg : Config} {r r' : Request V}
  {Issues : Bool → KVPairs V → Option Callback → Buffers V → Prop}
  {Answers : Message V → Message V → Prop}

theorem Idle.calls_of_step [Zero V] (h : r.Idle) (hstep : Request.Step cfg Issues Answers r r') :
    r.tracker = none ∨ r.calls ≠ [] := by
  obtain ⟨hreq, hres, hqueue, hreceiver, -, -⟩ := h
  cases hstep with
  | issue _ _ _ _ _ hnone => exact .inl hnone
  | addCallback hc | skipAll hc | slice hc | runInSend hc | send hc | finish hc =>
    exact .inr (by rw [hc]; simp)
  | answer hm => simp [hreq] at hm
  | deliver hm => simp [hres] at hm
  | pop _ hm => simp [hqueue] at hm
  | process hm | last hm | notLast hm | runInReceiver hm | addResponse hm =>
    rw [hreceiver] at hm
    cases hm

theorem Idle.step_of_call [Zero V] (h : r.Idle) {c : Call V} (hc : r.calls = [c])
    (htracker : r.tracker ≠ none) (hstep : Request.Step cfg Issues Answers r r') :
    (∃ push kvs callback, c = .addCallback push kvs callback ∧ r' = { r with
      calls := [.send push kvs]
      slot := { r.slot with callback := callback.or r.slot.callback } }) ∨
    (∃ push kvs slices, c = .send push kvs ∧
      defaultSlicer kvs (getServerKeyRanges cfg.numServers) = .ok slices ∧
      (slices.countP Option.isNone = slices.length ∧ r' = { r with
        calls := [.runCallback .find]
        tracker := countResponses slices.length r.tracker
        slot := (r.slot.record (.sliced push slices)).record (.runCallback true) } ∨
      slices.countP Option.isNone ≠ slices.length ∧ r' = { r with
        calls := [.loop push (numbered slices)]
        tracker := countResponses (slices.countP Option.isNone) r.tracker
        slot := r.slot.record (.sliced push slices) })) ∨
    (∃ pc pc' slot, c = .runCallback pc ∧ r.slot.runCallback cfg pc = .ok (pc', slot) ∧
      r' = { r with calls := (pc'.map Call.runCallback).toList, slot }) ∨
    ∃ push slices, c = .loop push slices := by
  have hone : ∀ {pre post : List (Call V)} {c' : Call V}, r.calls = pre ++ c' :: post →
      pre = [] ∧ post = [] ∧ c = c' := by
    intro pre post c' he
    rw [hc] at he
    obtain ⟨rfl, he⟩ := List.append_eq_singleton_iff.mp he.symm |>.resolve_right (by simp)
    obtain ⟨rfl, rfl⟩ := List.cons_eq_cons.mp he
    exact ⟨rfl, rfl, rfl⟩
  obtain ⟨hreq, hres, hqueue, hreceiver, -, -⟩ := h
  cases hstep with
  | issue _ _ _ _ _ hnone => exact absurd hnone htracker
  | addCallback he =>
    obtain ⟨rfl, rfl, rfl⟩ := hone he
    exact .inl ⟨_, _, _, rfl, rfl⟩
  | skipAll he hs hskip =>
    obtain ⟨rfl, rfl, rfl⟩ := hone he
    exact .inr (.inl ⟨_, _, _, rfl, hs, .inl ⟨hskip, rfl⟩⟩)
  | slice he hs hskip =>
    obtain ⟨rfl, rfl, rfl⟩ := hone he
    exact .inr (.inl ⟨_, _, _, rfl, hs, .inr ⟨hskip, rfl⟩⟩)
  | runInSend he hrun =>
    obtain ⟨rfl, rfl, rfl⟩ := hone he
    exact .inr (.inr (.inl ⟨_, _, _, rfl, hrun, by simp⟩))
  | send he =>
    obtain ⟨rfl, rfl, rfl⟩ := hone he
    exact .inr (.inr (.inr ⟨_, _, rfl⟩))
  | finish he =>
    obtain ⟨rfl, rfl, rfl⟩ := hone he
    exact .inr (.inr (.inr ⟨_, _, rfl⟩))
  | answer hm => simp [hreq] at hm
  | deliver hm => simp [hres] at hm
  | pop _ hm => simp [hqueue] at hm
  | process hm | last hm | notLast hm | runInReceiver hm | addResponse hm =>
    rw [hreceiver] at hm
    cases hm

theorem Idle.gathering (h : r.Idle) {push : Bool} {slices : List (Option (KVPairs V))}
    (htracker : r.tracker = some (cfg.numServers, 0)) (hlog : r.slot.log = [])
    (hlen : slices.length = cfg.numServers)
    (hskip : slices.countP Option.isNone ≠ slices.length) :
    ({ r with
      calls := [.loop push (numbered slices)]
      tracker := countResponses (slices.countP Option.isNone) r.tracker
      slot := r.slot.record (.sliced push slices) } : Request V).Gathering cfg push slices := by
  obtain ⟨hreq, hres, hqueue, hreceiver, hkvs, hans⟩ := h
  have hcount := length_numbered slices
  have hne : numbered slices ≠ [] := by
    intro hnil
    rw [hnil] at hcount
    exact hskip (by simpa using hcount)
  have hunsent : ({ r with
      calls := [.loop push (numbered slices)]
      tracker := countResponses (slices.countP Option.isNone) r.tracker
      slot := r.slot.record (.sliced push slices) } : Request V).unsent = numbered slices :=
    List.append_nil _
  have hout : ({ r with
      calls := [.loop push (numbered slices)]
      tracker := countResponses (slices.countP Option.isNone) r.tracker
      slot := r.slot.record (.sliced push slices) } : Request V).outstanding =
        (numbered slices).length := by
    unfold outstanding
    rw [hunsent, hreq, hres, hqueue, hreceiver]
    rfl
  refine ⟨hne, .inr ⟨_, rfl⟩, ⟨slices.countP Option.isNone, ?_, ?_⟩, ?_, ?_, ?_, ?_, ?_, ?_, ?_⟩
  · rw [htracker, countResponses, Option.map_some, Nat.zero_add]
  · rw [hout]
    omega
  · change r.slot.log ++ [.sliced push slices] = _
    rw [hlog, hout, hreceiver]
    simp [Receiver.runs, hne]
  · intro msg pc he
    rw [hreceiver] at he
    cases he
  · rw [hunsent, hreq, hans]
    exact List.Perm.refl _
  · rw [hunsent]
    exact fun x hx => hx
  · rw [hreq]
    exact fun m hm => nomatch hm
  · rw [hres, hqueue, hreceiver]
    exact fun m hm => nomatch hm
  · intro _ _
    change (r.slot.recvKvs ++ _).Perm _
    rw [hres, hqueue, hreceiver, hkvs, hans]
    exact List.Perm.refl _

theorem Idle.setSlot (h : r.Idle) {calls : List (Call V)} {tracker : Option (ℕ × ℕ)}
    {slot : Slot V} (hslot : slot.recvKvs = []) :
    ({ r with calls, tracker, slot } : Request V).Idle :=
  ⟨h.requests, h.responses, h.queue, h.receiver, hslot, h.answers⟩

inductive Phase.Step [Zero V] (cfg : Config) (r r' : Request V) : Phase V → Phase V → Prop
  | issue {push kvs callback} : Phase.Step cfg r r' .fresh (.adding push kvs callback)
  | addCallback {push kvs callback} : r'.slot.callback = callback.or r.slot.callback →
      r'.slot.out = r.slot.out →
      Phase.Step cfg r r' (.adding push kvs callback) (.sending push kvs)
  | skipAll {push kvs slices} :
      defaultSlicer kvs (getServerKeyRanges cfg.numServers) = .ok slices →
      slices.countP Option.isNone = slices.length → r'.slot.callback = r.slot.callback →
      r'.slot.out = r.slot.out →
      Phase.Step cfg r r' (.sending push kvs) (.skipped push slices (some .find))
  | slice {push kvs slices} :
      defaultSlicer kvs (getServerKeyRanges cfg.numServers) = .ok slices → r'.Collecting →
      r'.answers = [] → r'.slot.callback = r.slot.callback → r'.slot.out = r.slot.out →
      Phase.Step cfg r r' (.sending push kvs) (.gathering push slices)
  | run {push slices pc pc'} : r.slot.runCallback cfg pc = .ok (pc', r'.slot) →
      Phase.Step cfg r r' (.skipped push slices (some pc)) (.skipped push slices pc')
  | gather {push slices} : Phase.Step cfg r r' (.gathering push slices) (.gathering push slices)

theorem Fresh.step [Zero V] (h : r.Fresh) (hstep : Request.Step cfg Issues Answers r r') :
    ∃ push kvs callback out, Issues push kvs callback out ∧ r'.slot.callback = none ∧
      r'.slot.out = out ∧ r'.At cfg (.adding push kvs callback) := by
  cases hstep with
  | issue push kvs callback out hissue _ =>
    exact ⟨push, kvs, callback, out, hissue, h.callback, rfl,
      .adding (h.toIdle.setSlot h.recvKvs) (by rw [h.calls]; rfl) rfl h.log⟩
  | addCallback hc | skipAll hc | slice hc | runInSend hc | send hc | finish hc =>
    simp [h.calls] at hc
  | answer hm => simp [h.requests] at hm
  | deliver hm => simp [h.responses] at hm
  | pop _ hm => simp [h.queue] at hm
  | process hm | last hm | notLast hm | runInReceiver hm | addResponse hm =>
    rw [h.receiver] at hm
    cases hm

theorem At.step [Zero V] {phase : Phase V} (h : r.At cfg phase)
    (hstep : Request.Step cfg Issues Answers r r') :
    ∃ phase', r'.At cfg phase' ∧ phase.Step cfg r r' phase' := by
  cases h with
  | fresh hfresh =>
    obtain ⟨_, _, _, _, -, -, -, hadding⟩ := hfresh.step hstep
    exact ⟨_, hadding, .issue⟩
  | adding hidle hcalls htracker hlog =>
    rcases hidle.step_of_call hcalls (by simp [htracker]) hstep with
      ⟨_, _, _, hc, rfl⟩ | ⟨_, _, _, hc, -⟩ | ⟨_, _, _, hc, -⟩ | ⟨_, _, hc⟩
    · cases hc
      exact ⟨_, .sending (hidle.setSlot hidle.recvKvs) rfl htracker hlog, .addCallback rfl rfl⟩
    all_goals cases hc
  | @sending push kvs hidle hcalls htracker hlog =>
    rcases hidle.step_of_call hcalls (by simp [htracker]) hstep with
      ⟨_, _, _, hc, -⟩ | ⟨_, _, slices, hc, hslices, hcut⟩ | ⟨_, _, _, hc, -⟩ | ⟨_, _, hc⟩
    · cases hc
    · cases hc
      have hlen : slices.length = cfg.numServers :=
        (length_defaultSlicer hslices).trans (length_getServerKeyRanges _)
      rcases hcut with ⟨hskip, rfl⟩ | ⟨hskip, rfl⟩
      · have hnone : ∀ x ∈ slices, x = none := fun x hx =>
          Option.isNone_iff_eq_none.mp (List.countP_eq_length.mp hskip x hx)
        have htracker' : countResponses slices.length r.tracker =
            some (cfg.numServers, cfg.numServers) := by
          rw [htracker, hlen, countResponses, Option.map_some, Nat.zero_add]
        have hlog' : (r.slot.log ++ [.sliced push slices]) ++ [.runCallback true] =
            [.sliced push slices, .runCallback true] := by
          rw [hlog]
          rfl
        exact ⟨.skipped push slices (some .find),
          .skipped (hidle.setSlot hidle.recvKvs) rfl htracker' hlog' hnone,
          .skipAll hslices hskip rfl rfl⟩
      · refine ⟨_, .gathering (hidle.gathering htracker hlog hlen hskip),
          .slice hslices ⟨?_, ?_⟩ hidle.answers rfl rfl⟩
        · simp [Slot.record, hlog]
        · simp [hidle.receiver]
    all_goals cases hc
  | @skipped push slices pc hidle hcalls htracker hlog hnone =>
    cases pc with
    | none =>
      rcases hidle.calls_of_step hstep with hn | hn
      · rw [htracker] at hn
        cases hn
      · exact absurd hcalls hn
    | some pc =>
      rcases hidle.step_of_call hcalls (by simp [htracker]) hstep with
        ⟨_, _, _, hc, -⟩ | ⟨_, _, _, hc, -⟩ | ⟨_, pc', slot, hc, hrun, rfl⟩ | ⟨_, _, hc⟩
      · cases hc
      · cases hc
      · cases hc
        obtain ⟨hlog', hkvs, -⟩ := Slot.runCallback_spec hrun
        have hidle' : slot.recvKvs = [] := by
          rcases hkvs with hkvs | ⟨-, hkvs⟩
          · rw [hkvs, hidle.recvKvs]
          · exact hkvs
        rw [hlog] at hlog'
        exact ⟨.skipped push slices pc', .skipped (hidle.setSlot hidle') rfl htracker hlog' hnone,
          .run hrun⟩
      · cases hc
  | gathering h => exact ⟨_, .gathering (h.step hstep), .gather⟩

theorem Inv.step [Zero V] (h : r.Inv cfg) (hstep : Request.Step cfg Issues Answers r r') :
    r'.Inv cfg := by
  obtain ⟨phase, h⟩ := h
  obtain ⟨phase', h', -⟩ := h.step hstep
  exact ⟨phase', h'⟩

end Inv

end Request

/-! ## Reachable states -/

section

variable [Zero V] {cfg : Config}

theorem request_init (rank ts : ℕ) : ((Cluster.init : Cluster V).request rank ts).Inv cfg :=
  ⟨.fresh, .fresh ⟨⟨rfl, rfl, rfl, rfl, rfl, rfl⟩, rfl, rfl, rfl, rfl⟩⟩

theorem request_inv [Add V] {allowed : Cluster V → Action V → Prop} {s : Cluster V}
    (h : (machine cfg).Reachable allowed s) (rank ts : ℕ) : (s.request rank ts).Inv cfg := by
  revert rank ts
  refine h.invariant (P := fun s => ∀ rank ts, (s.request rank ts).Inv cfg) request_init ?_
  intro s a s' hinv _ hstep rank ts
  rcases step_moves hstep with hsame | ⟨rank', ts', hmove, hframe⟩
  · rw [hsame]
    exact hinv rank ts
  · by_cases heq : (rank, ts) = (rank', ts')
    · cases heq
      exact (hinv rank ts).step hmove
    · rw [hframe rank ts heq]
      exact hinv rank ts

end

/-! ## Completion -/

def Event.isRun : Event V → Bool
  | .runCallback _ => true
  | _ => false

theorem Receiver.mem_runs {receiver : Receiver V} {k : ℕ} {e : Event V}
    (he : e ∈ receiver.runs k) : e = .runCallback false ∨ e = .returned := by
  unfold Receiver.runs at he
  split at he
  · exact .inl (List.mem_singleton.mp he)
  all_goals
    split_ifs at he
    · simpa using he
    · cases he

theorem Receiver.countP_runs_le (receiver : Receiver V) (k : ℕ) :
    (receiver.runs k).countP Event.isRun ≤ 1 := by
  unfold Receiver.runs
  split
  · exact le_rfl
  all_goals
    split_ifs
    · exact le_rfl
    · exact Nat.zero_le 1

namespace Request

def Finished (r : Request V) : Prop := r.tracker ≠ none ∧ r.calls = [] ∧ r.outstanding = 0

/-- `RunCallback` runs once, in `Send` if all slices are empty and else in the receiving thread
with the last response, and finds the data of all responses. The condition of `Wait` holds only
when it has returned, except in `Send`, where it holds from the start. -/
structure CompletesOnce (r : Request V) : Prop where
  once : r.slot.log.countP Event.isRun ≤ 1
  finished : r.Finished → r.slot.log.countP Event.isRun = 1
  inSend : ∀ push slices inSend, .sliced push slices ∈ r.slot.log →
    .runCallback inSend ∈ r.slot.log → (inSend = true ↔ ∀ x ∈ slices, x = none)
  last : ∀ msg pc, r.receiver = .runCallback msg pc → r.outstanding = 1 ∧
    ∃ push slices, .sliced push slices ∈ r.slot.log ∧
      (r.answers.map Message.server).Perm ((numbered slices).map Prod.fst) ∧
      (push = false → pc ≠ .erase → r.slot.recvKvs.Perm (dataOf r.answers))
  skipped : ∀ pc, .runCallback pc ∈ r.calls → r.slot.recvKvs = [] ∧ r.answers = []
  early : ∀ pc, .runCallback pc ∈ r.calls → ∃ num, r.tracker = some (num, num)
  wait : ∀ num, r.tracker = some (num, num) → .returned ∈ r.slot.log ∨
    ∃ push slices, .sliced push slices ∈ r.slot.log ∧ ∀ x ∈ slices, x = none

variable {cfg : Config} {r : Request V}

theorem not_all_none {slices : List (Option (KVPairs V))} (h : numbered slices ≠ []) :
    ¬∀ x ∈ slices, x = none := by
  intro hnone
  have hcount := length_numbered slices
  have hall : slices.countP Option.isNone = slices.length :=
    List.countP_eq_length.mpr fun x hx => by rw [hnone x hx]; rfl
  exact h (List.length_eq_zero_iff.mp (by omega))

theorem receiver_of_outstanding_zero (h : r.outstanding = 0) : r.receiver = .waiting := by
  unfold outstanding at h
  cases hr : r.receiver with
  | waiting => rfl
  | _ =>
    rw [hr] at h
    simp [Receiver.message?] at h

theorem of_outstanding_one {msg : Message V} (h : r.outstanding = 1)
    (hm : r.receiver.message? = some msg) :
    r.unsent = [] ∧ r.requests = [] ∧ r.responses = [] ∧ r.queue = [] := by
  unfold outstanding at h
  rw [hm, Option.toList_some, List.length_singleton] at h
  simp only [← List.length_eq_zero_iff]
  omega

theorem Gathering.runCallback_notMem {push : Bool} {slices : List (Option (KVPairs V))}
    (h : r.Gathering cfg push slices) (pc : CallbackPc) : .runCallback pc ∉ r.calls := by
  rcases h.calls with hc | ⟨l, hc⟩ <;> simp [hc]

theorem Gathering.eq_of_mem_log {push push' : Bool} {slices slices' : List (Option (KVPairs V))}
    (h : r.Gathering cfg push slices) (hs : .sliced push' slices' ∈ r.slot.log) :
    slices' = slices := by
  rw [h.log] at hs
  rcases List.mem_cons.mp hs with hs | hs
  · cases hs
    rfl
  · rcases Receiver.mem_runs hs with hs | hs <;> cases hs

theorem Gathering.inSend_eq_false {push inSend : Bool} {slices : List (Option (KVPairs V))}
    (h : r.Gathering cfg push slices) (hrun : .runCallback inSend ∈ r.slot.log) :
    inSend = false := by
  rw [h.log] at hrun
  rcases List.mem_cons.mp hrun with hrun | hrun
  · cases hrun
  · rcases Receiver.mem_runs hrun with hrun | hrun <;> cases hrun
    rfl

theorem Gathering.last_response {push : Bool} {slices : List (Option (KVPairs V))}
    (h : r.Gathering cfg push slices) {msg : Message V} {pc : CallbackPc}
    (hr : r.receiver = .runCallback msg pc) :
    (r.answers.map Message.server).Perm ((numbered slices).map Prod.fst) ∧
      (push = false → pc ≠ .erase → r.slot.recvKvs.Perm (dataOf r.answers)) := by
  obtain ⟨hunsent, hreq, hres, hqueue⟩ :=
    of_outstanding_one (h.last msg pc hr) (by rw [hr]; rfl)
  refine ⟨?_, fun hp hpc => ?_⟩
  · have hs := h.servers
    rw [hunsent, hreq] at hs
    simpa using hs
  · have hd := h.data hp ⟨?_, fun msg' he => hpc ?_⟩
    · rw [hr, hqueue, hres] at hd
      simpa [dataOf, Receiver.unread] using hd
    · rw [h.log, hr]
      simp [Receiver.runs]
    · rw [hr] at he
      cases he
      rfl

theorem Gathering.completesOnce {push : Bool} {slices : List (Option (KVPairs V))}
    (h : r.Gathering cfg push slices) : r.CompletesOnce where
  once := by
    rw [h.log, List.countP_cons_of_neg Bool.false_ne_true]
    exact Receiver.countP_runs_le _ _
  finished := by
    rintro ⟨-, -, hzero⟩
    rw [h.log, hzero]
    rw [receiver_of_outstanding_zero hzero]
    rfl
  inSend push' slices' inSend hs hrun := by
    rw [h.eq_of_mem_log hs, h.inSend_eq_false hrun]
    exact iff_of_false Bool.false_ne_true (not_all_none h.nonempty)
  last msg pc hr := by
    have hmem : .sliced push slices ∈ r.slot.log := by
      rw [h.log]
      exact List.mem_cons_self
    exact ⟨h.last msg pc hr, push, slices, hmem, h.last_response hr⟩
  skipped pc hpc := absurd hpc (h.runCallback_notMem pc)
  early pc hpc := absurd hpc (h.runCallback_notMem pc)
  wait num hnum := by
    obtain ⟨c, hc, hsum⟩ := h.tracker
    rw [hc] at hnum
    cases hnum
    have hzero : r.outstanding = 0 := by omega
    refine .inl ?_
    rw [h.log, hzero]
    rw [receiver_of_outstanding_zero hzero]
    simp [Receiver.runs]

theorem Idle.completesOnce (h : r.Idle) (hlog : r.slot.log = [])
    (hcalls : ∀ pc, .runCallback pc ∉ r.calls) (hfinished : ¬r.Finished)
    (hwait : ∀ num, r.tracker ≠ some (num, num)) : r.CompletesOnce where
  once := by simp [hlog]
  finished hf := absurd hf hfinished
  inSend := by simp [hlog]
  last := by simp [h.receiver]
  skipped pc hpc := absurd hpc (hcalls pc)
  early pc hpc := absurd hpc (hcalls pc)
  wait num hnum := absurd hnum (hwait num)

theorem Idle.completesOnce_of_skipped (h : r.Idle) {push : Bool}
    {slices : List (Option (KVPairs V))} {rest : List (Event V)}
    (htracker : r.tracker = some (cfg.numServers, cfg.numServers))
    (hlog : r.slot.log = .sliced push slices :: .runCallback true :: rest)
    (hrest : ∀ e ∈ rest, e = .returned) (hnone : ∀ x ∈ slices, x = none) :
    r.CompletesOnce := by
  have hcount : r.slot.log.countP Event.isRun = 1 := by
    have hzero : rest.countP Event.isRun = 0 :=
      List.countP_eq_zero.mpr fun e he => by rw [hrest e he]; exact Bool.false_ne_true
    rw [hlog, List.countP_cons_of_neg Bool.false_ne_true, List.countP_cons_of_pos rfl, hzero]
  constructor
  case once => exact hcount.le
  case finished => exact fun _ => hcount
  case inSend =>
    intro push' slices' inSend hs hrun
    rw [hlog] at hs hrun
    simp only [List.mem_cons] at hs hrun
    obtain ⟨-, rfl⟩ : push' = push ∧ slices' = slices := by
      rcases hs with hs | hs | hs
      · cases hs
        exact ⟨rfl, rfl⟩
      · cases hs
      · cases hrest _ hs
    obtain rfl : inSend = true := by
      rcases hrun with hrun | hrun | hrun
      · cases hrun
      · cases hrun
        rfl
      · cases hrest _ hrun
    exact ⟨fun _ => hnone, fun _ => rfl⟩
  case last =>
    intro msg pc hr
    rw [h.receiver] at hr
    cases hr
  case skipped => exact fun _ _ => ⟨h.recvKvs, h.answers⟩
  case early => exact fun _ _ => ⟨cfg.numServers, htracker⟩
  case wait =>
    exact fun _ _ => .inr ⟨push, slices, hlog ▸ List.mem_cons_self, hnone⟩

theorem Inv.completesOnce (h : r.Inv cfg) : r.CompletesOnce := by
  have hpos := cfg.servers_pos
  have hwait : r.tracker = some (cfg.numServers, 0) → ∀ num, r.tracker ≠ some (num, num) := by
    intro ht num he
    rw [ht] at he
    obtain ⟨hnum, hzero⟩ := Prod.mk.inj (Option.some.inj he)
    omega
  obtain ⟨phase, h⟩ := h
  cases h with
  | fresh h =>
    exact h.toIdle.completesOnce h.log (by simp [h.calls]) (fun hf => hf.1 h.tracker)
      (by simp [h.tracker])
  | adding hidle hcalls htracker hlog =>
    exact hidle.completesOnce hlog (by simp [hcalls]) (fun hf => absurd hf.2.1 (by simp [hcalls]))
      (hwait htracker)
  | sending hidle hcalls htracker hlog =>
    exact hidle.completesOnce hlog (by simp [hcalls]) (fun hf => absurd hf.2.1 (by simp [hcalls]))
      (hwait htracker)
  | skipped hidle hcalls htracker hlog hnone =>
    refine hidle.completesOnce_of_skipped htracker hlog (fun e he => ?_) hnone
    split_ifs at he
    · exact List.mem_singleton.mp he
    · exact (List.not_mem_nil he).elim
  | gathering h => exact h.completesOnce

end Request

/-- Each request of each worker completes once, whatever the servers answer and however the
steps of the calls, the receiving threads and the network are interleaved. -/
theorem completes_once [Zero V] [Add V] (cfg : Config) {s : Cluster V}
    (h : (machine cfg).Reachable (fun _ _ => True) s) (rank ts : ℕ) :
    (s.request rank ts).CompletesOnce :=
  (request_inv h rank ts).completesOnce

def twoServers : Config := ⟨2, false, by decide⟩

def pullRun : List (Action ℤ) :=
  .pull 0 [1, 2 ^ 63] ⟨[], none⟩ :: List.replicate 5 (.advance 0) ++ [.handle 0, .handle 0] ++
    [.deliver 0, .deliver 0] ++ List.replicate 7 (.receive 0)

theorem completes_once_pullRun : ∃ s : Cluster ℤ,
    (machine twoServers).Reachable (fun _ _ => True) s ∧
    (s.request 0 0).receiver =
      .runCallback ⟨0, 1, 0, false, false, some ⟨[2 ^ 63], [0], []⟩⟩ .find ∧
    (s.request 0 0).CompletesOnce := by
  obtain ⟨s, hs, hr⟩ := (machine twoServers).exists_reachable_of_run (fun _ _ => True) pullRun
    (fun s => (s.request 0 0).receiver =
      .runCallback ⟨0, 1, 0, false, false, some ⟨[2 ^ 63], [0], []⟩⟩ .find) (by decide +kernel)
  exact ⟨s, hs, hr, completes_once twoServers hs 0 0⟩

/-- A request without keys satisfies the condition of `Wait` before its callback has returned. -/
theorem empty_request_waits_early : ∃ s : Cluster ℤ,
    (machine twoServers).Reachable (fun _ _ => True) s ∧ (s.worker 0).waitCondition 0 ∧
    .runCallback true ∈ ((s.worker 0).slots 0).log ∧ .returned ∉ ((s.worker 0).slots 0).log := by
  obtain ⟨s, hs, ht, hrun, hret⟩ := (machine twoServers).exists_reachable_of_run
    (fun _ _ => True) [.push 0 ⟨[], [], []⟩ true, .advance 0, .advance 0]
    (fun s : Cluster ℤ => (s.worker 0).tracker[0]? = some (2, 2) ∧
      .runCallback true ∈ ((s.worker 0).slots 0).log ∧ .returned ∉ ((s.worker 0).slots 0).log)
    (by decide +kernel)
  exact ⟨s, hs, ⟨2, ht⟩, hrun, hret⟩

end Ps
