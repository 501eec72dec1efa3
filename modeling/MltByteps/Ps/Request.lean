import MltByteps.Lib.Lists
import MltByteps.Ps.Cluster

/-! One request of a worker on its own: the parts of a cluster that belong to it, and the steps
that these parts take. Every step of a cluster is a step of one request and leaves the others
alone. -/

namespace Ps
open Lists

variable {V : Type}

/-- The parts of a cluster that belong to one request. -/
structure Request (V : Type) where
  calls : List (Call V)
  requests : List (Message V)
  responses : List (Message V)
  queue : List (Message V)
  receiver : Receiver V
  tracker : Option (ℕ × ℕ)
  slot : Slot V
  answers : List (Message V)

/-- A thread or message that belongs to the request `ts` of the worker `rank`. -/
def Thread.Of (rank ts : ℕ) (t : Thread V) : Prop := t.worker = rank ∧ t.timestamp = ts

def Message.Of (rank ts : ℕ) (m : Message V) : Prop := m.worker = rank ∧ m.timestamp = ts

instance (rank ts : ℕ) : DecidablePred (Thread.Of (V := V) rank ts) := fun t =>
  inferInstanceAs (Decidable (t.worker = rank ∧ t.timestamp = ts))

instance (rank ts : ℕ) : DecidablePred (Message.Of (V := V) rank ts) := fun m =>
  inferInstanceAs (Decidable (m.worker = rank ∧ m.timestamp = ts))

def Receiver.message? : Receiver V → Option (Message V)
  | .waiting => none
  | .process msg => some msg
  | .numResponse msg => some msg
  | .runCallback msg _ => some msg
  | .addResponse msg => some msg

/-- The receiving thread as the request `ts` sees it. -/
def Receiver.of (ts : ℕ) (r : Receiver V) : Receiver V :=
  if r.message?.map Message.timestamp = some ts then r else .waiting

def Cluster.request (s : Cluster V) (rank ts : ℕ) : Request V where
  calls := (s.threads.filter (·.Of rank ts)).map Thread.call
  requests := s.net.filter fun m => m.request ∧ m.Of rank ts
  responses := s.net.filter fun m => ¬m.request ∧ m.Of rank ts
  queue := (s.worker rank).recvQueue.filter (·.timestamp = ts)
  receiver := (s.worker rank).receiver.of ts
  tracker := (s.worker rank).tracker[ts]?
  slot := (s.worker rank).slots ts
  answers := s.answers.filter (·.Of rank ts)

def countResponses (num : ℕ) (tracker : Option (ℕ × ℕ)) : Option (ℕ × ℕ) :=
  tracker.map fun x => (x.1, x.2 + num)

section

variable [Zero V] (cfg : Config) (Issues : Bool → KVPairs V → Option Callback → Buffers V → Prop)
  (Answers : Message V → Message V → Prop)

/-- The steps of a request. `Issues` and `Answers` say which calls and which answers of the
servers there are. -/
inductive Request.Step : Request V → Request V → Prop
  | issue {r} (push kvs callback out) : Issues push kvs callback out → r.tracker = none →
      Step r { r with
        calls := r.calls ++ [.addCallback push kvs callback]
        tracker := some (cfg.numServers, 0)
        slot := { r.slot with out } }
  | addCallback {r pre post push kvs callback} :
      r.calls = pre ++ .addCallback push kvs callback :: post →
      Step r { r with
        calls := pre ++ .send push kvs :: post
        slot := { r.slot with callback := callback.or r.slot.callback } }
  | skipAll {r pre post push kvs slices} : r.calls = pre ++ .send push kvs :: post →
      defaultSlicer kvs (getServerKeyRanges cfg.numServers) = .ok slices →
      slices.countP Option.isNone = slices.length →
      Step r { r with
        calls := pre ++ .runCallback .find :: post
        tracker := countResponses slices.length r.tracker
        slot := (r.slot.record (.sliced push slices)).record (.runCallback true) }
  | slice {r pre post push kvs slices} : r.calls = pre ++ .send push kvs :: post →
      defaultSlicer kvs (getServerKeyRanges cfg.numServers) = .ok slices →
      slices.countP Option.isNone ≠ slices.length →
      Step r { r with
        calls := pre ++ .loop push (numbered slices) :: post
        tracker := countResponses (slices.countP Option.isNone) r.tracker
        slot := r.slot.record (.sliced push slices) }
  | runInSend {r pre post pc pc' slot} : r.calls = pre ++ .runCallback pc :: post →
      r.slot.runCallback cfg pc = .ok (pc', slot) →
      Step r { r with calls := pre ++ (pc'.map Call.runCallback).toList ++ post, slot }
  | send {r pre post push kvs slices} {msg : Message V} :
      r.calls = pre ++ .loop push ((msg.server, kvs) :: slices) :: post →
      msg.push = push → msg.data = kvs.toData →
      Step r { r with
        calls := pre ++ .loop push slices :: post
        requests := r.requests ++ [msg] }
  | finish {r pre post push} : r.calls = pre ++ .loop push [] :: post →
      Step r { r with calls := pre ++ post }
  | answer {r pre post msg res} : r.requests = pre ++ msg :: post → Answers msg res →
      res.request = false → res.server = msg.server → res.push = msg.push →
      Step r { r with
        requests := pre ++ post
        responses := r.responses ++ [res]
        answers := r.answers ++ [res] }
  | deliver {r pre post msg} : r.responses = pre ++ msg :: post →
      Step r { r with responses := pre ++ post, queue := r.queue ++ [msg] }
  | pop {r msg queue} : r.receiver = .waiting → r.queue = msg :: queue →
      Step r { r with queue, receiver := .process msg }
  | process {r msg} : r.receiver = .process msg →
      Step r { r with
        slot := { r.slot with
          recvKvs := r.slot.recvKvs ++ if msg.push then [] else msg.data.toList }
        receiver := .numResponse msg }
  | last {r msg} : r.receiver = .numResponse msg →
      (r.tracker.getD (0, 0)).2 + 1 = cfg.numServers →
      Step r { r with
        slot := r.slot.record (.runCallback false)
        receiver := .runCallback msg .find }
  | notLast {r msg} : r.receiver = .numResponse msg →
      (r.tracker.getD (0, 0)).2 + 1 ≠ cfg.numServers →
      Step r { r with receiver := .addResponse msg }
  | runInReceiver {r msg pc pc' slot} : r.receiver = .runCallback msg pc →
      r.slot.runCallback cfg pc = .ok (pc', slot) →
      Step r { r with slot, receiver := pc'.elim (.addResponse msg) (.runCallback msg) }
  | addResponse {r msg} : r.receiver = .addResponse msg →
      Step r { r with
        tracker := if msg.request then r.tracker else countResponses 1 r.tracker
        receiver := .waiting }

end

/-! ## Steps of the cluster -/

/-- Nothing but the request `ts` changes in a worker. -/
structure Worker.Elsewhere (ts : ℕ) (w w' : Worker V) : Prop where
  queue : ∀ ts' ≠ ts,
    w'.recvQueue.filter (·.timestamp = ts') = w.recvQueue.filter (·.timestamp = ts')
  receiver : ∀ ts' ≠ ts, w'.receiver.of ts' = w.receiver.of ts'
  tracker : ∀ ts' ≠ ts, w'.tracker[ts']? = w.tracker[ts']?
  slots : ∀ ts' ≠ ts, w'.slots ts' = w.slots ts'

/-- One request makes a move and the others stay as they are. -/
structure Moves (R : Request V → Request V → Prop) (s s' : Cluster V) (rank ts : ℕ) : Prop where
  step : R (s.request rank ts) (s'.request rank ts)
  frame : ∀ rank' ts', (rank', ts') ≠ (rank, ts) → s'.request rank' ts' = s.request rank' ts'

section Frame

variable {s s' : Cluster V} {rank ts : ℕ} {w : Worker V}

theorem Worker.elsewhere_setSlot (ts : ℕ) (slot : Slot V) (w : Worker V) :
    w.Elsewhere ts (w.setSlot ts slot) where
  queue _ _ := rfl
  receiver _ _ := rfl
  tracker _ _ := rfl
  slots _ hts := Function.update_of_ne hts _ _

theorem Worker.Elsewhere.trans {w w' w'' : Worker V} (h : w.Elsewhere ts w')
    (h' : w'.Elsewhere ts w'') : w.Elsewhere ts w'' where
  queue ts' hts := (h'.queue ts' hts).trans (h.queue ts' hts)
  receiver ts' hts := (h'.receiver ts' hts).trans (h.receiver ts' hts)
  tracker ts' hts := (h'.tracker ts' hts).trans (h.tracker ts' hts)
  slots ts' hts := (h'.slots ts' hts).trans (h.slots ts' hts)

theorem Worker.elsewhere_addResponse (ts num : ℕ) (w : Worker V) :
    w.Elsewhere ts (w.addResponse ts num) where
  queue _ _ := rfl
  receiver _ _ := rfl
  tracker ts' hts := by
    rw [addResponse, List.getElem?_modify_ne _ _ hts.symm]
  slots _ _ := rfl

theorem Worker.addResponse_tracker (ts num : ℕ) (w : Worker V) :
    (w.addResponse ts num).tracker[ts]? = countResponses num w.tracker[ts]? := by
  rw [addResponse, List.getElem?_modify_eq]
  rfl

theorem Cluster.request_frame (hw : (s.worker rank).Elsewhere ts (s'.worker rank))
    (hother : ∀ rank' ≠ rank, s'.worker rank' = s.worker rank')
    (hthreads : ∀ rank' ts', (rank', ts') ≠ (rank, ts) →
      s'.threads.filter (·.Of rank' ts') = s.threads.filter (·.Of rank' ts'))
    (hnet : ∀ rank' ts', (rank', ts') ≠ (rank, ts) →
      ∀ p : Message V → Bool, (∀ m, p m = true → m.Of rank' ts') →
        s'.net.filter p = s.net.filter p)
    (hanswers : ∀ rank' ts', (rank', ts') ≠ (rank, ts) →
      s'.answers.filter (·.Of rank' ts') = s.answers.filter (·.Of rank' ts'))
    (rank' ts' : ℕ) (hne : (rank', ts') ≠ (rank, ts)) :
    s'.request rank' ts' = s.request rank' ts' := by
  have hreq := hnet rank' ts' hne (fun m => m.request ∧ m.Of rank' ts') fun m hm => by simp_all
  have hres := hnet rank' ts' hne (fun m => ¬m.request ∧ m.Of rank' ts') fun m hm => by simp_all
  unfold request
  rw [hthreads rank' ts' hne, hreq, hres, hanswers rank' ts' hne]
  by_cases hrank : rank' = rank
  · subst hrank
    have hts : ts' ≠ ts := fun h => hne (by rw [h])
    rw [hw.queue ts' hts, hw.receiver ts' hts, hw.tracker ts' hts, hw.slots ts' hts]
  · rw [hother rank' hrank]

end Frame

section Moves

variable {cfg : Config} {s : Cluster V} {rank ts : ℕ}
  {Issues : Bool → KVPairs V → Option Callback → Buffers V → Prop}
  {Answers : Message V → Message V → Prop}

theorem filter_append_singleton_of_neg {α : Type} {p : α → Bool} (l : List α) {x : α}
    (hx : p x = false) : (l ++ [x]).filter p = l.filter p := by
  rw [List.filter_append, List.filter_singleton, hx, cond_false, List.append_nil]

theorem issue_moves [Zero V] {push : Bool} {kvs : KVPairs V} {callback : Option Callback}
    {out : Buffers V} (h : Issues push kvs callback out) (rank : ℕ) :
    Moves (Request.Step cfg Issues Answers) s (s.issue cfg rank push kvs callback out) rank
      (s.worker rank).tracker.length := by
  have hnone : (s.request rank (s.worker rank).tracker.length).tracker = none :=
    List.getElem?_eq_none le_rfl
  refine ⟨?_, Cluster.request_frame ⟨fun _ _ => ?_, fun _ _ => ?_, fun ts' hts => ?_,
    fun ts' hts => ?_⟩ (fun rank' hrank => ?_) (fun rank' ts' hne => ?_)
    (fun _ _ _ _ _ => rfl) (fun _ _ _ => rfl)⟩
  · have hstep : Request.Step cfg Issues Answers _ _ := .issue push kvs callback out h hnone
    convert hstep using 1
    simp only [Cluster.request, Cluster.issue, Function.update_self, Worker.setSlot,
      List.getElem?_concat_length, List.filter_append, List.map_append]
    simp [Thread.Of]
  · simp only [Cluster.issue, Function.update_self, Worker.setSlot]
  · simp only [Cluster.issue, Function.update_self, Worker.setSlot]
  · simp only [Cluster.issue, Function.update_self, List.getElem?_append]
    split_ifs with hlt
    · rfl
    · rw [List.getElem?_eq_none (by simp; omega), List.getElem?_eq_none (by omega)]
  · simp only [Cluster.issue, Function.update_self, Worker.setSlot]
    exact Function.update_of_ne hts _ _
  · exact Function.update_of_ne hrank _ _
  · refine filter_append_singleton_of_neg _ (decide_eq_false fun hof => hne ?_)
    rw [← hof.1, ← hof.2]

/-- The cluster after a step of the call at position `i`. -/
def Cluster.advanced (i : ℕ) (t : Thread V) (w : Worker V) (call : Option (Call V))
    (msg : Option (Message V)) (s : Cluster V) : Cluster V :=
  { s.setWorker t.worker w with
    threads := s.threads.take i ++
      (call.map (⟨t.worker, t.timestamp, ·⟩)).toList ++ s.threads.drop (i + 1)
    net := s.net ++ msg.toList }

section Advance

variable {i : ℕ} {t : Thread V} {w : Worker V} {call : Option (Call V)} {msg : Option (Message V)}

theorem request_calls (hget : s.threads[i]? = some t) : ∃ pre post,
    (s.request t.worker t.timestamp).calls = pre ++ t.call :: post ∧
    ∀ w call msg, ((s.advanced i t w call msg).request t.worker t.timestamp).calls =
      pre ++ call.toList ++ post := by
  have hsplit := (filter_split (p := (·.Of t.worker t.timestamp)) hget
    (decide_eq_true ⟨rfl, rfl⟩)).1
  refine ⟨((s.threads.take i).filter (·.Of t.worker t.timestamp)).map Thread.call,
    ((s.threads.drop (i + 1)).filter (·.Of t.worker t.timestamp)).map Thread.call, ?_, ?_⟩
  · unfold Cluster.request
    dsimp only
    rw [hsplit, List.map_append, List.map_cons]
  · intro w call msg
    unfold Cluster.request Cluster.advanced
    dsimp only
    rw [List.filter_append, List.filter_append, List.map_append, List.map_append]
    cases call with
    | none => rfl
    | some call => simp [Thread.Of]

theorem request_advanced (hw : (s.worker t.worker).recvQueue = w.recvQueue)
    (hr : (s.worker t.worker).receiver = w.receiver)
    (hmsg : ∀ m ∈ msg, m.request = true ∧ m.Of t.worker t.timestamp) :
    (s.advanced i t w call msg).request t.worker t.timestamp =
      { s.request t.worker t.timestamp with
        calls := ((s.advanced i t w call msg).request t.worker t.timestamp).calls
        requests := (s.request t.worker t.timestamp).requests ++ msg.toList
        tracker := w.tracker[t.timestamp]?
        slot := w.slots t.timestamp } := by
  unfold Cluster.request Cluster.advanced Cluster.setWorker
  simp only [Function.update_self, List.filter_append, hw, hr]
  cases msg with
  | none => simp
  | some m =>
    obtain ⟨hreq, hof⟩ := hmsg m rfl
    simp [hreq, hof]

theorem frame_advanced (hget : s.threads[i]? = some t)
    (hw : (s.worker t.worker).Elsewhere t.timestamp w)
    (hmsg : ∀ m ∈ msg, m.request = true ∧ m.Of t.worker t.timestamp) (rank' ts' : ℕ)
    (hne : (rank', ts') ≠ (t.worker, t.timestamp)) :
    (s.advanced i t w call msg).request rank' ts' = s.request rank' ts' := by
  refine Cluster.request_frame ?_ (fun rank' hrank => ?_) (fun rank' ts' hne => ?_)
    (fun rank' ts' hne p hp => ?_) (fun _ _ _ => ?_) rank' ts' hne
  · unfold Cluster.advanced Cluster.setWorker
    simpa only [Function.update_self] using hw
  · exact Function.update_of_ne hrank _ _
  · -- neither the thread before nor the one after the step belongs to the other request
    have hnot : ∀ c, decide ((⟨t.worker, t.timestamp, c⟩ : Thread V).Of rank' ts') = false :=
      fun c => decide_eq_false fun hof => hne (by rw [← hof.1, ← hof.2])
    conv_rhs => rw [split_of_getElem? hget]
    unfold Cluster.advanced
    rw [List.filter_append, List.filter_append, List.filter_append,
      List.filter_cons_of_neg (by simpa using hnot t.call)]
    cases call with
    | none => simp
    | some c => simp [hnot c]
  · unfold Cluster.advanced
    cases msg with
    | none => simp
    | some m =>
      refine filter_append_singleton_of_neg _ (Bool.eq_false_iff.mpr fun hpm => hne ?_)
      obtain ⟨hrank, hts⟩ := hp m hpm
      obtain ⟨hrank', hts'⟩ := (hmsg m rfl).2
      rw [← hrank, ← hts, hrank', hts']
  · rfl

theorem advance_frame [Zero V] {w₀ : Worker V} {rank ts : ℕ} {c : Call V}
    (h : w₀.advance cfg rank ts c = .ok (w, call, msg)) :
    w₀.recvQueue = w.recvQueue ∧ w₀.receiver = w.receiver ∧ w₀.Elsewhere ts w ∧
      ∀ m ∈ msg, m.request = true ∧ m.Of rank ts := by
  have hnone : ∀ m ∈ (none : Option (Message V)), m.request = true ∧ m.Of rank ts :=
    fun _ hm => nomatch hm
  cases c with
  | addCallback push kvs callback =>
    cases h
    exact ⟨rfl, rfl, Worker.elsewhere_setSlot _ _ _, hnone⟩
  | send push kvs =>
    obtain ⟨slices, -, h⟩ := bind_eq_ok.mp h
    dsimp only at h
    split_ifs at h
    all_goals
      cases h
      exact ⟨rfl, rfl, (Worker.elsewhere_addResponse _ _ _).trans (Worker.elsewhere_setSlot _ _ _),
        hnone⟩
  | runCallback pc =>
    obtain ⟨⟨pc', slot⟩, -, h⟩ := bind_eq_ok.mp h
    cases h
    exact ⟨rfl, rfl, Worker.elsewhere_setSlot _ _ _, hnone⟩
  | loop push slices =>
    cases slices with
    | nil =>
      cases h
      exact ⟨rfl, rfl, ⟨fun _ _ => rfl, fun _ _ => rfl, fun _ _ => rfl, fun _ _ => rfl⟩, hnone⟩
    | cons x slices =>
      cases h
      refine ⟨rfl, rfl, ⟨fun _ _ => rfl, fun _ _ => rfl, fun _ _ => rfl, fun _ _ => rfl⟩, ?_⟩
      rintro m ⟨⟩
      exact ⟨rfl, rfl, rfl⟩

theorem advance_moves [Zero V] (hget : s.threads[i]? = some t)
    (h : (s.worker t.worker).advance cfg t.worker t.timestamp t.call = .ok (w, call, msg)) :
    Moves (Request.Step cfg Issues Answers) s (s.advanced i t w call msg) t.worker
      t.timestamp := by
  obtain ⟨pre, post, hcalls, hcalls'⟩ := request_calls hget
  obtain ⟨hqueue, hreceiver, hw, hmsg⟩ := advance_frame h
  refine ⟨?_, frame_advanced hget hw hmsg⟩
  rw [request_advanced hqueue hreceiver hmsg, hcalls']
  generalize t.call = c at h hcalls
  cases c with
  | addCallback push kvs callback =>
    cases h
    have hstep : Request.Step cfg Issues Answers _ _ := .addCallback hcalls
    convert hstep using 1
    simp [Cluster.request]
  | send push kvs =>
    obtain ⟨slices, hslices, h⟩ := bind_eq_ok.mp h
    dsimp only at h
    split_ifs at h with hskip
    · cases h
      have hstep : Request.Step cfg Issues Answers _ _ := .skipAll hcalls hslices hskip
      convert hstep using 1
      simp [Cluster.request, Worker.addResponse_tracker, hskip]
    · cases h
      have hstep : Request.Step cfg Issues Answers _ _ := .slice hcalls hslices hskip
      convert hstep using 1
      simp [Cluster.request, Worker.addResponse_tracker]
  | runCallback pc =>
    obtain ⟨⟨pc', slot⟩, hrun, h⟩ := bind_eq_ok.mp h
    cases h
    have hstep : Request.Step cfg Issues Answers _ _ := .runInSend hcalls hrun
    convert hstep using 1
    simp [Cluster.request]
  | loop push slices =>
    cases slices with
    | nil =>
      cases h
      have hstep : Request.Step cfg Issues Answers _ _ := .finish hcalls
      convert hstep using 1
      simp [Cluster.request]
    | cons x slices =>
      cases h
      have hstep : Request.Step cfg Issues Answers _ _ :=
        @Request.Step.send _ _ _ _ _ _ _ _ _ _ _
          ⟨t.worker, x.1, t.timestamp, true, push, x.2.toData⟩ hcalls rfl rfl
      convert hstep using 1
      simp [Cluster.request]

end Advance

theorem Receiver.of_self {r : Receiver V} {m : Message V} (h : ∀ m' ∈ r.message?, m' = m) :
    r.of m.timestamp = r := by
  cases r with
  | waiting => rfl
  | _ => exact if_pos (by rw [h _ rfl]; rfl)

theorem Receiver.of_ne {r : Receiver V} {m : Message V} (h : ∀ m' ∈ r.message?, m' = m)
    (hts : ts ≠ m.timestamp) : r.of ts = .waiting := by
  refine if_neg fun he => hts ?_
  obtain ⟨m', hm', rfl⟩ := Option.map_eq_some_iff.mp he
  rw [h m' hm']

section Receive

variable {w : Worker V} {m : Message V}

theorem request_setWorker (rank ts : ℕ) (w : Worker V) (s : Cluster V) :
    (s.setWorker rank w).request rank ts =
      { s.request rank ts with
        queue := w.recvQueue.filter (·.timestamp = ts)
        receiver := w.receiver.of ts
        tracker := w.tracker[ts]?
        slot := w.slots ts } := by
  unfold Cluster.request Cluster.setWorker
  simp only [Function.update_self]

theorem frame_setWorker (hw : (s.worker rank).Elsewhere ts w) (rank' ts' : ℕ)
    (hne : (rank', ts') ≠ (rank, ts)) :
    (s.setWorker rank w).request rank' ts' = s.request rank' ts' := by
  refine Cluster.request_frame ?_ (fun rank' hrank => ?_) (fun _ _ _ => ?_) (fun _ _ _ _ _ => ?_)
    (fun _ _ _ => ?_) rank' ts' hne
  · unfold Cluster.setWorker
    simpa only [Function.update_self] using hw
  · exact Function.update_of_ne hrank _ _
  all_goals rfl

theorem Worker.elsewhere_receiver {w w' : Worker V} {r : Receiver V}
    (h : w.Elsewhere m.timestamp w') (hw : ∀ m' ∈ w.receiver.message?, m' = m)
    (hr : ∀ m' ∈ r.message?, m' = m) :
    w.Elsewhere m.timestamp { w' with receiver := r } where
  queue := h.queue
  receiver _ hts := (Receiver.of_ne hr hts).trans (Receiver.of_ne hw hts).symm
  tracker := h.tracker
  slots := h.slots

theorem Worker.elsewhere_refl (ts : ℕ) (w : Worker V) : w.Elsewhere ts w :=
  ⟨fun _ _ => rfl, fun _ _ => rfl, fun _ _ => rfl, fun _ _ => rfl⟩

theorem busy_moves {R : Request V → Request V → Prop} {w' : Worker V} {r : Receiver V}
    (hw : (s.worker rank).Elsewhere m.timestamp w')
    (hq : w'.recvQueue = (s.worker rank).recvQueue)
    (hm : ∀ m' ∈ (s.worker rank).receiver.message?, m' = m) (hr : ∀ m' ∈ r.message?, m' = m)
    (hstep : R (s.request rank m.timestamp) { s.request rank m.timestamp with
      receiver := r, tracker := w'.tracker[m.timestamp]?, slot := w'.slots m.timestamp }) :
    Moves R s (s.setWorker rank { w' with receiver := r }) rank m.timestamp := by
  refine ⟨?_, frame_setWorker (Worker.elsewhere_receiver hw hm hr)⟩
  rw [request_setWorker]
  convert hstep using 1
  simp only [Receiver.of_self hr, hq]
  rfl

theorem receive_moves [Zero V] (h : (s.worker rank).receive cfg = .ok w) :
    s.setWorker rank w = s ∨
      ∃ ts, Moves (Request.Step cfg Issues Answers) s (s.setWorker rank w) rank ts := by
  have hsome : ∀ m m' : Message V, m' ∈ some m → m' = m := fun m m' hm => (Option.some.inj hm).symm
  unfold Worker.receive at h
  rcases hr : (s.worker rank).receiver with _ | msg | msg | ⟨msg, pc⟩ | msg
  · rw [hr] at h
    rcases hq : (s.worker rank).recvQueue with _ | ⟨msg, queue⟩
    · rw [hq] at h
      cases h
      exact .inl (by rw [Cluster.setWorker, Function.update_eq_self])
    · rw [hq] at h
      cases h
      refine .inr ⟨msg.timestamp, ?_, frame_setWorker ?_⟩
      · have hwaiting : (s.request rank msg.timestamp).receiver = .waiting := by
          simp [Cluster.request, hr, Receiver.of]
        have hqueue : (s.request rank msg.timestamp).queue =
            msg :: queue.filter (·.timestamp = msg.timestamp) := by
          simp [Cluster.request, hq]
        have hstep : Request.Step cfg Issues Answers _ _ := .pop hwaiting hqueue
        rw [request_setWorker]
        convert hstep using 1
        simp [Cluster.request, Receiver.of_self (r := .process msg) (hsome msg)]
      · refine ⟨fun ts' hts => ?_, fun ts' hts => ?_, fun _ _ => rfl, fun _ _ => rfl⟩
        · rw [hq, List.filter_cons_of_neg (by simpa using hts.symm)]
        · rw [hr]
          exact Receiver.of_ne (hsome msg) hts
  all_goals
    rw [hr] at h
    have hmsg : ∀ m' ∈ (s.worker rank).receiver.message?, m' = msg := by
      rw [hr]
      exact hsome msg
    have hreceiver : (s.request rank msg.timestamp).receiver = (s.worker rank).receiver :=
      Receiver.of_self hmsg
    rw [hr] at hreceiver
  · cases h
    refine .inr ⟨_, busy_moves (Worker.elsewhere_setSlot _ _ _) rfl hmsg (hsome msg) ?_⟩
    have hstep : Request.Step cfg Issues Answers _ _ := .process hreceiver
    convert hstep using 1
    simp [Cluster.request]
  · dsimp only at h
    split_ifs at h with hlast
    · cases h
      refine .inr ⟨_, busy_moves (Worker.elsewhere_setSlot _ _ _) rfl hmsg (hsome msg) ?_⟩
      have hstep : Request.Step cfg Issues Answers _ _ := .last hreceiver hlast
      convert hstep using 1
      simp [Cluster.request]
    · cases h
      refine .inr ⟨_, busy_moves (Worker.elsewhere_refl _ _) rfl hmsg (hsome msg) ?_⟩
      exact .notLast hreceiver hlast
  · obtain ⟨⟨pc', slot⟩, hrun, h⟩ := bind_eq_ok.mp h
    cases h
    refine .inr ⟨_, busy_moves (Worker.elsewhere_setSlot _ _ _) rfl hmsg ?_ ?_⟩
    · cases pc' <;> exact hsome msg
    · have hstep : Request.Step cfg Issues Answers _ _ := .runInReceiver hreceiver hrun
      convert hstep using 1
      simp [Cluster.request]
  · cases h
    refine .inr ⟨_, busy_moves ?_ ?_ hmsg (fun _ h => nomatch h) ?_⟩
    · split_ifs
      · exact Worker.elsewhere_refl _ _
      · exact Worker.elsewhere_addResponse _ _ _
    · split_ifs <;> rfl
    · have hstep : Request.Step cfg Issues Answers _ _ := .addResponse hreceiver
      convert hstep using 1
      split_ifs
      · rfl
      · simp only [Worker.addResponse_tracker]
        rfl

end Receive

section Messages

variable {i : ℕ} {msg res : Message V}

theorem answer_moves [Zero V] (hget : s.net[i]? = some msg) (hreq : msg.request = true)
    (hans : Answers msg res) (hres : res.request = false) (hserver : res.server = msg.server)
    (hpush : res.push = msg.push) (hof : res.Of msg.worker msg.timestamp) :
    Moves (Request.Step cfg Issues Answers) s (s.answer i res) msg.worker msg.timestamp := by
  constructor
  · obtain ⟨hsplit, herase⟩ := filter_split
      (p := fun m => m.request ∧ m.Of msg.worker msg.timestamp) hget
      (decide_eq_true ⟨hreq, rfl, rfl⟩)
    have hkeep := filter_eraseIdx_of_neg
      (p := fun m => ¬m.request ∧ m.Of msg.worker msg.timestamp) hget
      (decide_eq_false fun h => h.1 hreq)
    have hstep : Request.Step cfg Issues Answers (s.request msg.worker msg.timestamp) _ :=
      .answer hsplit hans hres hserver hpush
    convert hstep using 1
    unfold Cluster.request Cluster.answer
    dsimp only
    rw [List.filter_append, herase, List.filter_append, hkeep, List.filter_append]
    simp [hres, hof]
  · have hnot : ∀ rank' ts', (rank', ts') ≠ (msg.worker, msg.timestamp) → ¬res.Of rank' ts' :=
      fun rank' ts' hne h => hne (by rw [← h.1, ← h.2, hof.1, hof.2])
    refine Cluster.request_frame (Worker.elsewhere_refl _ _) (fun _ _ => rfl) (fun _ _ _ => rfl)
      (fun rank' ts' hne p hp => ?_) (fun rank' ts' hne => ?_)
    · have hmsg : p msg = false := Bool.eq_false_iff.mpr fun h =>
        hne (by rw [← (hp msg h).1, ← (hp msg h).2])
      unfold Cluster.answer
      dsimp only
      rw [filter_append_singleton_of_neg _ (Bool.eq_false_iff.mpr fun h =>
        hnot rank' ts' hne (hp res h)), filter_eraseIdx_of_neg hget hmsg]
    · exact filter_append_singleton_of_neg _ (decide_eq_false (hnot rank' ts' hne))

def Cluster.delivered (i : ℕ) (msg : Message V) (s : Cluster V) : Cluster V :=
  { s.setWorker msg.worker { s.worker msg.worker with
      recvQueue := (s.worker msg.worker).recvQueue ++ [msg] } with
    net := s.net.eraseIdx i }

theorem deliver_moves [Zero V] (hget : s.net[i]? = some msg) (hreq : msg.request = false) :
    Moves (Request.Step cfg Issues Answers) s (s.delivered i msg) msg.worker msg.timestamp := by
  constructor
  · obtain ⟨hsplit, herase⟩ := filter_split
      (p := fun m => ¬m.request ∧ m.Of msg.worker msg.timestamp) hget
      (decide_eq_true ⟨by simp [hreq], rfl, rfl⟩)
    have hkeep := filter_eraseIdx_of_neg
      (p := fun m => m.request ∧ m.Of msg.worker msg.timestamp) hget
      (decide_eq_false fun h => by simp [hreq] at h)
    have hstep : Request.Step cfg Issues Answers (s.request msg.worker msg.timestamp) _ :=
      .deliver hsplit
    convert hstep using 1
    unfold Cluster.request Cluster.delivered Cluster.setWorker
    simp only [Function.update_self]
    rw [herase, hkeep, List.filter_append]
    simp
  · refine Cluster.request_frame ⟨fun ts' hts => ?_, fun _ _ => ?_, fun _ _ => ?_, fun _ _ => ?_⟩
      (fun rank' hrank => ?_) (fun _ _ _ => rfl) (fun rank' ts' hne p hp => ?_) (fun _ _ _ => rfl)
    · simp only [Cluster.delivered, Cluster.setWorker, Function.update_self]
      exact filter_append_singleton_of_neg _ (decide_eq_false hts.symm)
    · simp only [Cluster.delivered, Cluster.setWorker, Function.update_self]
    · simp only [Cluster.delivered, Cluster.setWorker, Function.update_self]
    · simp only [Cluster.delivered, Cluster.setWorker, Function.update_self]
    · exact Function.update_of_ne hrank _ _
    · exact filter_eraseIdx_of_neg hget (Bool.eq_false_iff.mpr fun h =>
        hne (by rw [← (hp msg h).1, ← (hp msg h).2]))

end Messages

end Moves

def Action.Issues : Action V → Bool → KVPairs V → Option Callback → Buffers V → Prop
  | .push _ kvs callback, isPush, kvs', callback', out =>
    isPush = true ∧ kvs' = kvs ∧ callback' = (if callback then some .user else none) ∧
      out = ⟨[], none⟩
  | .pull _ keys out, isPush, kvs', callback', out' =>
    isPush = false ∧ kvs' = ⟨keys, [], []⟩ ∧ callback' = some (.pull keys) ∧ out' = out
  | _, _, _, _, _ => False

def Cluster.Answers [Zero V] [Add V] (s : Cluster V) :
    Action V → Message V → Message V → Prop
  | .handle i, msg, res =>
    s.net[i]? = some msg ∧ ∃ store, msg.process (s.store msg.server) = .ok (store, res)
  | .respond i data, msg, res => s.net[i]? = some msg ∧ res = msg.response data
  | _, _, _ => False

theorem process_response [Zero V] [Add V] {msg res : Message V} {store store' : ℕ → V}
    (h : msg.process store = .ok (store', res)) : ∃ data, res = msg.response data := by
  obtain ⟨-, h⟩ := require_bind_eq_ok.mp h
  obtain ⟨⟨store'', data⟩, -, h⟩ := bind_eq_ok.mp h
  cases h
  exact ⟨data, rfl⟩

/-- A step changes nothing, or one request moves. -/
theorem step_moves [Zero V] [Add V] {cfg : Config} {s s' : Cluster V} {a : Action V}
    (h : step cfg s a = .ok s') : (∀ rank ts, s'.request rank ts = s.request rank ts) ∨
      ∃ rank ts, Moves (Request.Step cfg a.Issues (s.Answers a)) s s' rank ts := by
  have hsame : ∀ {x : Except Fault (Cluster V)}, x = .ok s → x = .ok s' →
      ∀ rank ts, s'.request rank ts = s.request rank ts := by
    intro x hs hs' rank ts
    rw [Except.ok.inj (hs.symm.trans hs')]
  cases a with
  | push rank kvs callback =>
    cases h
    obtain ⟨hstep, hframe⟩ : Moves (Request.Step cfg (Action.push rank kvs callback).Issues
        (s.Answers (.push rank kvs callback))) s
        (s.issue cfg rank true kvs (if callback then some .user else none) ⟨[], none⟩) rank _ :=
      issue_moves ⟨rfl, rfl, rfl, rfl⟩ rank
    exact .inr ⟨rank, _, hstep, hframe⟩
  | pull rank keys out =>
    cases h
    exact .inr ⟨rank, _, issue_moves ⟨rfl, rfl, rfl, rfl⟩ rank⟩
  | advance i =>
    unfold step at h
    dsimp only at h
    rcases hget : s.threads[i]? with _ | t
    · rw [hget] at h
      exact .inl (hsame rfl h)
    · rw [hget] at h
      obtain ⟨⟨w, call, msg⟩, hadv, h⟩ := bind_eq_ok.mp h
      cases h
      exact .inr ⟨_, _, advance_moves hget hadv⟩
  | receive rank =>
    obtain ⟨w, hw, h⟩ := bind_eq_ok.mp h
    cases h
    rcases receive_moves hw with hs | ⟨ts, hmoves⟩
    · exact .inl fun rank' ts' => by rw [hs]
    · exact .inr ⟨rank, ts, hmoves⟩
  | handle i =>
    unfold step at h
    dsimp only at h
    rcases hget : s.net[i]? with _ | msg
    · rw [hget] at h
      exact .inl (hsame rfl h)
    · rw [hget] at h
      dsimp only at h
      split_ifs at h with hreq
      · obtain ⟨⟨store, res⟩, hproc, h⟩ := bind_eq_ok.mp h
        cases h
        obtain ⟨data, rfl⟩ := process_response hproc
        obtain ⟨hstep, hframe⟩ : Moves (Request.Step cfg _ (s.Answers (.handle i))) s
          (s.answer i (msg.response data)) msg.worker msg.timestamp :=
          answer_moves hget hreq ⟨hget, store, hproc⟩ rfl rfl rfl ⟨rfl, rfl⟩
        exact .inr ⟨_, _, hstep, hframe⟩
      · exact .inl (hsame rfl h)
  | respond i data =>
    unfold step at h
    dsimp only at h
    rcases hget : s.net[i]? with _ | msg
    · rw [hget] at h
      exact .inl (hsame rfl h)
    · rw [hget] at h
      dsimp only at h
      split_ifs at h with hreq
      · cases h
        exact .inr ⟨_, _, answer_moves hget hreq ⟨hget, rfl⟩ rfl rfl rfl ⟨rfl, rfl⟩⟩
      · exact .inl (hsame rfl h)
  | deliver i =>
    unfold step at h
    dsimp only at h
    rcases hget : s.net[i]? with _ | msg
    · rw [hget] at h
      exact .inl (hsame rfl h)
    · rw [hget] at h
      dsimp only at h
      split_ifs at h with hreq
      · exact .inl (hsame rfl h)
      · cases h
        exact .inr ⟨_, _, deliver_moves hget (Bool.eq_false_iff.mpr hreq)⟩

end Ps
