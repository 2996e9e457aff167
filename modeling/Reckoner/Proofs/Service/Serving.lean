import Mathlib
import Reckoner.Proofs.Service.Handling
import Reckoner.Service.Serving

/-!
# Clients are served in order and apart

What a server has done is told by how many clients it has served: each of these is left as it would be by itself, and those
behind them wait untouched (`reachable_iff`). So the loop comes to one end, which is the session that `Server.start` computes.
-/
namespace Reckoner.Service.Serving

open Outcome Text

variable {s : Server} {processors : Nat} {limit : Option Int} {cs : List Server.Client} {st st' : State}

/-! ### One client -/

/-- What handling a client by itself leads to. -/
def handled (c : Server.Connection) : Log.Logged (Option (List Char)) :=
  Server.deliver c (Server.receive c.pieces).length ((Server.receive c.pieces).map answerTo)

theorem handleClient_eq_handled (c : Server.Connection) : s.handleClient processors c = .ok (handled c) :=
  s.handleClient_eq processors c

theorem handles_ok_iff (hprocessors : 1 ≤ processors) {c : Server.Connection} {outcome : Log.Logged (Option (List Char))} :
    s.Handles processors c (.ok outcome) ↔ outcome = handled c := by
  rw [Server.handles_iff hprocessors, handleClient_eq_handled, Except.ok.injEq]

def servedAs (outcome : Log.Logged (Option (List Char))) : Server.Served :=
  ⟨outcome.value.getD [], true⟩

/-! ### The states of the loop -/

/-- A step serves the client that comes next as if it were alone, in whatever order its workers end. -/
theorem step_iff (hprocessors : 1 ≤ processors) : Step s processors limit st st' ↔
    ∃ c rest, st.arriving = c :: rest ∧ IsOpen limit st.served.length ∧
      st' = ⟨rest, st.served ++ [servedAs (handled c.toConnection)], st.events ++ [.accept, .close],
        st.log ++ connected c :: (handled c.toConnection).log⟩ := by
  constructor
  · intro h
    cases h with
    | @serve c rest served events log outcome awaited hc =>
      obtain rfl := (handles_ok_iff hprocessors).1 hc
      exact ⟨c, rest, rfl, awaited, rfl⟩
  · obtain ⟨arriving, served, events, log⟩ := st
    rintro ⟨c, rest, rfl, awaited, rfl⟩
    exact .serve awaited ((handles_ok_iff hprocessors).2 rfl)

/-- The state of a server that has served the first `n` clients. -/
def State.having (s : Server) (cs : List Server.Client) (n : Nat) : State where
  arriving := cs.drop n
  served := (cs.take n).map fun c => servedAs (handled c.toConnection)
  events := .bind s.endpoint :: .listen :: (List.replicate n [.accept, .close]).flatten
  log := opening s ++ (cs.take n).flatMap fun c => connected c :: (handled c.toConnection).log

theorem State.having_zero (s : Server) (cs : List Server.Client) : State.having s cs 0 = .start s cs := by
  simp [having, start]

theorem length_served_having {n : Nat} (h : n ≤ cs.length) : (State.having s cs n).served.length = n := by
  simp [State.having, h]

theorem lt_count_iff (limit : Option Int) {arriving n : Nat} : n < count limit arriving ↔ IsOpen limit n ∧ n < arriving := by
  cases limit with
  | none => simp [count, IsOpen]
  | some k =>
    simp only [count, IsOpen, Option.elim_some, Option.mem_def, Option.some.injEq, forall_eq', Nat.lt_min]
    omega

theorem count_le (limit : Option Int) (arriving : Nat) : count limit arriving ≤ arriving := by
  cases limit with
  | none => exact Nat.le_refl _
  | some k => exact Nat.min_le_right _ _

theorem State.having_succ {n : Nat} (h : n < cs.length) : State.having s cs (n + 1) =
    ⟨cs.drop (n + 1), (State.having s cs n).served ++ [servedAs (handled cs[n].toConnection)],
      (State.having s cs n).events ++ [.accept, .close],
      (State.having s cs n).log ++ connected cs[n] :: (handled cs[n].toConnection).log⟩ := by
  simp only [having, List.take_succ_eq_append_getElem h, List.map_append, List.map_cons, List.map_nil, List.flatMap_append,
    List.flatMap_cons, List.flatMap_nil, List.append_nil, List.replicate_succ', List.flatten_append, List.flatten_singleton,
    List.cons_append, List.append_assoc]

theorem step_having_iff (hprocessors : 1 ≤ processors) {n : Nat} (hn : n ≤ cs.length) :
    Step s processors limit (.having s cs n) st ↔ n < count limit cs.length ∧ st = .having s cs (n + 1) := by
  rw [step_iff hprocessors, length_served_having hn, lt_count_iff limit]
  have harriving : (State.having s cs n).arriving = cs.drop n := rfl
  rw [harriving]
  constructor
  · rintro ⟨c, rest, hdrop, hopen, rfl⟩
    have hlt : n < cs.length := by
      by_contra hle
      rw [List.drop_eq_nil_of_le (Nat.le_of_not_lt hle)] at hdrop
      cases hdrop
    rw [List.drop_eq_getElem_cons hlt] at hdrop
    obtain ⟨rfl, rfl⟩ := List.cons.inj hdrop
    exact ⟨⟨hopen, hlt⟩, (State.having_succ hlt).symm⟩
  · rintro ⟨⟨hopen, hlt⟩, rfl⟩
    exact ⟨cs[n], cs.drop (n + 1), List.drop_eq_getElem_cons hlt, hopen, State.having_succ hlt⟩

/-- The states of the loop are told by how many clients were served. -/
theorem reachable_iff (hprocessors : 1 ≤ processors) : Reachable s processors limit cs st ↔
    ∃ n ≤ count limit cs.length, st = .having s cs n := by
  have hle := count_le limit cs.length
  constructor
  · intro h
    induction h with
    | start => exact ⟨0, Nat.zero_le _, (State.having_zero s cs).symm⟩
    | step _ hstep ih =>
      obtain ⟨n, hn, rfl⟩ := ih
      obtain ⟨hlt, rfl⟩ := (step_having_iff hprocessors (hn.trans hle)).1 hstep
      exact ⟨n + 1, hlt, rfl⟩
  · rintro ⟨n, hn, rfl⟩
    induction n with
    | zero => exact State.having_zero s cs ▸ .start
    | succ n ih =>
      refine .step (ih (Nat.le_of_succ_le hn)) ?_
      exact (step_having_iff hprocessors (Nat.le_of_succ_le (hn.trans hle))).2 ⟨hn, rfl⟩

/-! ### The end of the loop -/

theorem ends_iff {session : Server.Session} : Ends limit st session ↔
    (¬IsOpen limit st.served.length ∧
      session = ⟨st.events, st.log, st.served ++ st.arriving.map (fun _ => ({} : Server.Served)), false⟩) ∨
    (IsOpen limit st.served.length ∧ st.arriving = [] ∧ session = ⟨st.events ++ [.accept], st.log, st.served, true⟩) := by
  constructor
  · intro h
    cases h with
    | returned enough => exact .inl ⟨enough, rfl⟩
    | interrupted awaited => exact .inr ⟨awaited, rfl, rfl⟩
  · obtain ⟨arriving, served, events, log⟩ := st
    rintro (⟨enough, rfl⟩ | ⟨awaited, rfl, rfl⟩)
    · exact .returned enough
    · exact .interrupted awaited

theorem isOpen_count_iff {arriving : Nat} : IsOpen limit (count limit arriving) ↔ IsOpen limit arriving := by
  have hlt : count limit arriving < count limit arriving ↔ _ := lt_count_iff limit
  have hle := count_le limit arriving
  constructor
  · intro hopen
    have harriving : ¬count limit arriving < arriving := fun h => Nat.lt_irrefl _ (hlt.2 ⟨hopen, h⟩)
    rwa [← Nat.le_antisymm hle (Nat.le_of_not_lt harriving)]
  · intro hopen k hk
    exact lt_of_le_of_lt (Int.ofNat_le.2 hle) (hopen k hk)

theorem count_eq_of_isOpen {arriving : Nat} (h : IsOpen limit arriving) : count limit arriving = arriving := by
  refine Nat.le_antisymm (count_le _ _) (Nat.le_of_not_lt fun hlt => ?_)
  exact Nat.lt_irrefl _ ((lt_count_iff limit).2 ⟨isOpen_count_iff.2 h, hlt⟩)

/-- What a server has done that has served all clients that it will. -/
def inOrder (s : Server) (limit : Option Int) (cs : List Server.Client) : Server.Session :=
  let st := State.having s cs (count limit cs.length)
  if IsOpen limit cs.length then ⟨st.events ++ [.accept], st.log, st.served, true⟩
  else ⟨st.events, st.log, st.served ++ st.arriving.map fun _ => ({} : Server.Served), false⟩

theorem ends_having_iff {n : Nat} (hn : n ≤ count limit cs.length) {session : Server.Session} :
    Ends limit (.having s cs n) session ↔ n = count limit cs.length ∧ session = inOrder s limit cs := by
  have hle := hn.trans (count_le _ _)
  have hlt : n < count limit cs.length ↔ _ := lt_count_iff limit
  have harriving : (State.having s cs n).arriving = [] ↔ cs.length ≤ n := List.drop_eq_nil_iff
  rw [ends_iff, length_served_having hle, harriving]
  constructor
  · rintro (⟨hclosed, rfl⟩ | ⟨hopen, hall, rfl⟩)
    · obtain rfl : n = count limit cs.length :=
        Nat.le_antisymm hn (Nat.le_of_not_lt fun h => hclosed (hlt.1 h).1)
      rw [isOpen_count_iff] at hclosed
      exact ⟨rfl, by rw [inOrder, if_neg hclosed]⟩
    · obtain rfl : n = cs.length := Nat.le_antisymm hle hall
      exact ⟨(count_eq_of_isOpen hopen).symm, by rw [inOrder, if_pos hopen, count_eq_of_isOpen hopen]⟩
  · rintro ⟨rfl, rfl⟩
    rw [inOrder, isOpen_count_iff]
    split
    · next hopen => exact .inr ⟨hopen, (count_eq_of_isOpen hopen).ge, rfl⟩
    · next hclosed => exact .inl ⟨hclosed, rfl⟩

theorem exists_ends_iff (hprocessors : 1 ≤ processors) {session : Server.Session} :
    (∃ st, Reachable s processors limit cs st ∧ Ends limit st session) ↔ session = inOrder s limit cs := by
  constructor
  · rintro ⟨st, hreachable, hends⟩
    obtain ⟨n, hn, rfl⟩ := (reachable_iff hprocessors).1 hreachable
    exact ((ends_having_iff hn).1 hends).2
  · rintro rfl
    exact ⟨_, (reachable_iff hprocessors).2 ⟨_, Nat.le_refl _, rfl⟩, (ends_having_iff (Nat.le_refl _)).2 ⟨rfl, rfl⟩⟩

theorem exists_steps_ends (hprocessors : 1 ≤ processors) (h : Reachable s processors limit cs st) :
    ∃ st', Relation.ReflTransGen (Step s processors limit) st st' ∧ Ends limit st' (inOrder s limit cs) := by
  obtain ⟨n, hn, rfl⟩ := (reachable_iff hprocessors).1 h
  refine ⟨.having s cs (count limit cs.length), ?_, (ends_having_iff (Nat.le_refl _)).2 ⟨rfl, rfl⟩⟩
  induction hn using Nat.decreasingInduction with
  | self => exact .refl
  | of_succ n hlt ih =>
    have hnext : Step s processors limit (.having s cs n) (.having s cs (n + 1)) :=
      (step_having_iff hprocessors (hlt.le.trans (count_le _ _))).2 ⟨hlt, rfl⟩
    exact .head hnext (ih (.step h hnext))

/-! ### The computed session -/

def remaining (limit : Option Int) (served : Nat) : Option Nat :=
  limit.map fun k => (k - (served : Int)).toNat

theorem remaining_eq_zero_iff {n : Nat} : remaining limit n = some 0 ↔ ¬IsOpen limit n := by
  cases limit with
  | none => simp [remaining, IsOpen]
  | some k =>
    simp only [remaining, IsOpen, Option.map_some, Option.mem_def, Option.some.injEq, forall_eq']
    omega

theorem remaining_succ (limit : Option Int) (n : Nat) : (remaining limit n).map (· - 1) = remaining limit (n + 1) := by
  cases limit with
  | none => rfl
  | some k =>
    simp only [remaining, Option.map_some, Option.some.injEq]
    omega

/-- Unless no more clients may be served, the next one is handled before all others, if there is one. -/
theorem serveClients_nil {o : Option Nat} (h : o ≠ some 0) :
    s.serveClients processors o [] = .ok ⟨[.accept], [], [], true⟩ := by
  rw [Server.serveClients]
  exact h

theorem serveClients_cons {o : Option Nat} (h : o ≠ some 0) (c : Server.Client) (arriving : List Server.Client) :
    s.serveClients processors o (c :: arriving) =
      (s.serveClients processors (o.map (· - 1)) arriving >>= fun rest =>
        .ok ⟨.accept :: .close :: rest.events, connected c :: (handled c.toConnection).log ++ rest.log,
          servedAs (handled c.toConnection) :: rest.clients, rest.interrupted⟩) := by
  have hhandled : s.handleClient processors c.toConnection = .ok (handled c.toConnection) :=
    handleClient_eq_handled c.toConnection
  rw [Server.serveClients, hhandled]
  · rfl
  · exact h

theorem serveClients_of_not_isOpen {n : Nat} (h : ¬IsOpen limit n) (arriving : List Server.Client) :
    s.serveClients processors (remaining limit n) arriving =
      .ok ⟨[], [], arriving.map fun _ => ({} : Server.Served), false⟩ := by
  rw [remaining_eq_zero_iff.2 h, Server.serveClients]

theorem exists_serveClients (hprocessors : 1 ≤ processors) (h : Reachable s processors limit cs st) :
    ∃ rest st', s.serveClients processors (remaining limit st.served.length) st.arriving = .ok rest ∧
      Reachable s processors limit cs st' ∧ Ends limit st' ⟨st.events ++ rest.events, st.log ++ rest.log,
        st.served ++ rest.clients, rest.interrupted⟩ := by
  obtain ⟨arriving, served, events, log⟩ := st
  induction arriving generalizing served events log with
  | nil =>
    by_cases hopen : IsOpen limit served.length
    · refine ⟨_, _, serveClients_nil (mt remaining_eq_zero_iff.1 (not_not.2 hopen)), h, ?_⟩
      simpa using Ends.interrupted hopen
    · refine ⟨_, _, serveClients_of_not_isOpen hopen [], h, ?_⟩
      have hends : Ends limit ⟨[], served, events, log⟩ _ := .returned hopen
      simpa using hends
  | cons c arriving ih =>
    by_cases hopen : IsOpen limit served.length
    · have hhandled : s.Handles processors c.toConnection (.ok (handled c.toConnection)) := (handles_ok_iff hprocessors).2 rfl
      obtain ⟨rest, st', hrest, hreachable, hends⟩ := ih _ _ _ (h.step (.serve hopen hhandled))
      have hserve : s.serveClients processors (remaining limit served.length) (c :: arriving) = _ :=
        serveClients_cons (mt remaining_eq_zero_iff.1 (not_not.2 hopen)) c arriving
      rw [remaining_succ] at hserve
      rw [List.length_append, List.length_singleton] at hrest
      rw [hrest] at hserve
      refine ⟨_, st', hserve, hreachable, ?_⟩
      simpa [servedAs, Server.Served.close] using hends
    · refine ⟨_, _, serveClients_of_not_isOpen hopen _, h, ?_⟩
      have hends : Ends limit ⟨c :: arriving, served, events, log⟩ _ := .returned hopen
      simpa using hends

theorem start_eq (hprocessors : 1 ≤ processors) (limit : Option Int) (cs : List Server.Client) :
    s.start processors limit cs = .ok (inOrder s limit cs) := by
  obtain ⟨rest, st, hrest, hreachable, hends⟩ := exists_serveClients hprocessors
    (.start : Reachable s processors limit cs (.start s cs))
  have hlimit : limit.map Int.toNat = remaining limit 0 := by simp [remaining]
  have hserve : s.serveClients processors (limit.map Int.toNat) cs = .ok rest := by
    rw [hlimit]
    exact hrest
  rw [← (exists_ends_iff hprocessors).1 ⟨st, hreachable, hends⟩, Server.start, hserve]
  simp [State.start, opening]

/-! ### What a server does -/

/-- A client that was served: it was sent what it is sent by itself, which is nothing if sending fails, and its connection was
closed. -/
def IsServed (s : Server) (processors : Nat) (c : Server.Client) (served : Server.Served) : Prop :=
  ∃ outcome, s.handleClient processors c.toConnection = .ok outcome ∧ served = ⟨outcome.value.getD [], true⟩

theorem forall₂_isServed (cs : List Server.Client) :
    List.Forall₂ (IsServed s processors) cs (cs.map fun c => servedAs (handled c.toConnection)) :=
  List.forall₂_map_right_iff.2 (List.forall₂_same.2 fun c _ => ⟨_, handleClient_eq_handled c.toConnection, rfl⟩)

/-- What is kept by the loop: the clients that were accepted are served, one after another, and the others were not touched. -/
structure IsUnderway (s : Server) (processors : Nat) (limit : Option Int) (cs : List Server.Client) (st : State) : Prop where
  bounded : st.served.length ≤ count limit cs.length
  each : List.Forall₂ (IsServed s processors) (cs.take st.served.length) st.served
  untouched : st.arriving = cs.drop st.served.length
  events : st.events = .bind s.endpoint :: .listen :: (List.replicate st.served.length [.accept, .close]).flatten
  closed : st.served.countP (·.closed) = st.events.count .close

theorem countP_closed_having {n : Nat} (hn : n ≤ cs.length) :
    (State.having s cs n).served.countP (·.closed) = n ∧ (State.having s cs n).events.count .close = n := by
  constructor
  · have hall : ∀ r ∈ (State.having s cs n).served, r.closed = true := by
      intro r hr
      obtain ⟨c, -, rfl⟩ := List.mem_map.1 hr
      rfl
    rw [List.countP_eq_length.2 hall, length_served_having hn]
  · simp [State.having, List.count_flatten]

theorem isUnderway_of_reachable (hprocessors : 1 ≤ processors) (h : Reachable s processors limit cs st) :
    IsUnderway s processors limit cs st := by
  obtain ⟨n, hn, rfl⟩ := (reachable_iff hprocessors).1 h
  have hlength : (State.having s cs n).served.length = n := length_served_having (hn.trans (count_le _ _))
  exact {
    bounded := hlength.symm ▸ hn
    each := hlength.symm ▸ forall₂_isServed _
    untouched := by rw [hlength]; rfl
    events := by rw [hlength]; rfl
    closed := by
      obtain ⟨hclosed, hevents⟩ := countP_closed_having (s := s) (hn.trans (count_le _ _))
      rw [hclosed, hevents] }

/-- A session in which as many clients were served as there are and as the limit allows, in the order in which they came. The
others were not touched. The server is interrupted if it waits for a client that does not come. -/
structure IsInOrder (s : Server) (processors : Nat) (limit : Option Int) (cs : List Server.Client)
    (session : Server.Session) : Prop where
  each : ∃ served, List.Forall₂ (IsServed s processors) (cs.take (count limit cs.length)) served ∧
    session.clients = served ++ List.replicate (cs.length - count limit cs.length) ⟨[], false⟩
  interrupted_iff : session.interrupted = true ↔ IsOpen limit cs.length
  events : session.events = .bind s.endpoint :: .listen ::
    ((List.replicate (if session.interrupted then cs.length else (limit.getD 0).toNat) [.accept, .close]).flatten ++
      if session.interrupted then [.accept] else [])
  closed : session.clients.countP (·.closed) = session.events.count .close

theorem isInOrder_inOrder (s : Server) (processors : Nat) (limit : Option Int) (cs : List Server.Client) :
    IsInOrder s processors limit cs (inOrder s limit cs) := by
  obtain ⟨hclosed, hevents⟩ := countP_closed_having (s := s) (count_le limit cs.length)
  by_cases hopen : IsOpen limit cs.length
  · have hcount := count_eq_of_isOpen hopen
    rw [inOrder, if_pos hopen]
    exact {
      each := ⟨_, forall₂_isServed _, by simp [State.having, hcount]⟩
      interrupted_iff := by simp [hopen]
      events := by simp [State.having, hcount]
      closed := by simp [hclosed, hevents] }
  · have hcount : count limit cs.length = (limit.getD 0).toNat := by
      cases limit with
      | none => simp [IsOpen] at hopen
      | some k =>
        simp only [IsOpen, Option.mem_def, Option.some.injEq, forall_eq'] at hopen
        simp only [count, Option.elim_some, Option.getD_some]
        omega
    rw [inOrder, if_neg hopen]
    exact {
      each := ⟨_, forall₂_isServed _, by simp [State.having]⟩
      interrupted_iff := by simp [hopen]
      events := by simp [State.having, hcount]
      closed := by simp [hclosed, hevents] }

theorem inOrder_congr {ds : List Server.Client} (hlength : ds.length = cs.length)
    (htake : ds.take (count limit cs.length) = cs.take (count limit cs.length)) :
    inOrder s limit ds = inOrder s limit cs := by
  have huntouched : (ds.drop (count limit cs.length)).map (fun _ => ({} : Server.Served)) =
      (cs.drop (count limit cs.length)).map fun _ => {} := by
    simp only [List.map_const', List.length_drop, hlength]
  simp only [inOrder, State.having, hlength, htake, huntouched]

theorem serveForever_eq (hprocessors : 1 ≤ processors) (cs : List Server.Client) :
    s.serveForever processors cs = .ok { inOrder s none cs with
      log := (inOrder s none cs).log ++ [⟨.info, "🖥️ Server stopped"⟩], interrupted := false } := by
  rw [Server.serveForever, start_eq hprocessors]
  rfl

/-- The first clients, as many as the limit says, are served one after another, each as if it were alone; the server does not
look at the others. It returns when it has served so many, and is interrupted when it waits for another one that does not come.
Without a limit that is always so, and a server that serves until it is interrupted takes it for its end. -/
theorem served_in_order (s : Server) {processors : Nat} (hprocessors : 1 ≤ processors) (limit : Option Int)
    (cs : List Server.Client) :
    ∃ session, s.start processors limit cs = .ok session ∧ IsInOrder s processors limit cs session ∧
      (∀ st, Reachable s processors limit cs st → IsUnderway s processors limit cs st ∧
        (∃ st', Relation.ReflTransGen (Step s processors limit) st st' ∧ Ends limit st' session) ∧
        ∀ session', Ends limit st session' → session' = session) ∧
      (∀ ds, ds.length = cs.length → ds.take (count limit cs.length) = cs.take (count limit cs.length) →
        s.start processors limit ds = .ok session) ∧
      (limit = none → s.serveForever processors cs = .ok { session with
        log := session.log ++ [⟨.info, "🖥️ Server stopped"⟩], interrupted := false }) := by
  refine ⟨_, start_eq hprocessors limit cs, isInOrder_inOrder s processors limit cs, ?_, ?_, ?_⟩
  · intro st h
    exact ⟨isUnderway_of_reachable hprocessors h, exists_steps_ends hprocessors h,
      fun session' hends => (exists_ends_iff hprocessors).1 ⟨st, h, hends⟩⟩
  · intro ds hlength htake
    rw [start_eq hprocessors, inOrder_congr hlength htake]
  · rintro rfl
    exact serveForever_eq hprocessors cs

/-- Of three clients the first goes away, the second is sent its value as it would be by itself, and the third is not looked
at. -/
theorem served_in_order_gone :
    let clients : List Server.Client := [⟨⟨[[0x31]], some "Broken pipe"⟩, ("10.0.0.1", 40000)⟩,
      ⟨⟨[toUtf8 (Request.mk "1+2").text], none⟩, ("10.0.0.2", 40001)⟩, ⟨⟨[[0x33]], none⟩, ("10.0.0.3", 40002)⟩]
    1 ≤ 4 ∧ ∃ session, Server.start {} 4 (some 2) clients = .ok session ∧
      session.clients = [⟨[], true⟩, ⟨"\x7b\"result\": 3\x7d\n".toList, true⟩, ⟨[], false⟩] ∧
      session.events = [.bind .default, .listen, .accept, .close, .accept, .close] ∧ session.interrupted = false := by
  intro clients
  obtain ⟨session, hsession, horder, -⟩ := served_in_order {} (by decide : 1 ≤ 4) (some 2) clients
  obtain ⟨served, hserved, hclients⟩ := horder.each
  obtain ⟨_, rest, ⟨gone, hgone, rfl⟩, hrest, rfl⟩ := List.forall₂_cons_left_iff.1 hserved
  obtain ⟨_, _, ⟨alone, halone, rfl⟩, hnil, rfl⟩ := List.forall₂_cons_left_iff.1 hrest
  obtain rfl := List.forall₂_nil_left_iff.1 hnil
  obtain rfl : handled _ = gone := Except.ok.inj ((handleClient_eq_handled _).symm.trans hgone)
  obtain rfl : handled _ = alone := Except.ok.inj ((handleClient_eq_handled _).symm.trans halone)
  have hreceive : Server.receive [toUtf8 (Request.mk "1+2").text] = [String.ofList (Request.mk "1+2").text] := by
    decide +kernel
  have hsum : localAnswer "1+2" = .result (.int 3) := by decide +kernel
  have hsent : (handled ⟨[toUtf8 (Request.mk "1+2").text], none⟩).value =
      some "\x7b\"result\": 3\x7d\n".toList := by
    rw [handled, hreceive, List.map_singleton, answerTo_text, hsum]
    decide +kernel
  have hnot : session.interrupted = false :=
    Bool.eq_false_iff.2 fun h => absurd (horder.interrupted_iff.1 h) (by decide)
  refine ⟨by decide, session, hsession, ?_, ?_, hnot⟩
  · rw [hclients, hsent]
    rfl
  · rw [horder.events, hnot]
    rfl

end Reckoner.Service.Serving
