import FrameworkBenchmarks.H2o.Database

/-!
# The list of connections with quota left

`pool->conn` chains the established connections that can take another query. Its tail is right as
long as `remove_connection` never unlinks the last of several nodes; after that, appended connections
may end up behind a node that is not in the list.
-/

namespace FrameworkBenchmarks.H2o

open Common

/-- The connection is established, and whether it has quota left. -/
def listable (s : DbConnPool) (quota : Bool) (c : ℕ) : Prop :=
  ∃ conn, s.conns c = some conn ∧ conn.established = true ∧ (decide (conn.queryNum ≠ 0)) = quota

/-- The list of the pool is `done ++ rest`, and the tail ends `done` (`rest` is what the third loop
of `on_process_queries` has still to visit). The connections in `spare` are chained as well, and the
one in hand (`skip`) is in neither list. -/
structure Listed (s : DbConnPool) (skip : Option ℕ) (spare done rest : List ℕ) : Prop where
  chain : Chain s.connNext s.conn.head (done ++ rest)
  spareChain : Chain s.connNext spare.head? spare
  nodup : (done ++ rest ++ spare).Nodup
  tail : s.conn.tail = done.getLast? ∨
    (rest = [] ∧ .tornTail ∈ s.defects ∧ ∃ t, s.conn.tail = some t ∧ t ∉ done ∧ t ∉ spare)
  members : ∀ c ∈ done ++ rest, listable s true c
  spareMembers : ∀ c ∈ spare, listable s false c
  skipped : ∀ c, skip = some c → c ∉ done ++ rest ∧ c ∉ spare
  complete : .tornTail ∉ s.defects → ∀ c, skip ≠ some c → listable s true c → c ∈ done ++ rest

variable {s s' : DbConnPool} {skip : Option ℕ} {spare done rest : List ℕ} {c : ℕ}

/-- The list only depends on its links and on which connections are established and have quota. -/
theorem Listed.congr (h : Listed s skip spare done rest) (hconn : s'.conn = s.conn)
    (hnext : ∀ c ∈ done ++ rest ++ spare, s'.connNext c = s.connNext c)
    (hdefects : s'.defects = s.defects)
    (hconns : ∀ c quota, skip ≠ some c → (listable s' quota c ↔ listable s quota c)) :
    Listed s' skip spare done rest where
  chain := by
    rw [hconn]
    exact h.chain.congr fun c hc => hnext c (List.mem_append_left _ hc)
  spareChain := h.spareChain.congr fun c hc => hnext c (List.mem_append_right _ hc)
  nodup := h.nodup
  tail := by
    rw [hconn, hdefects]
    exact h.tail
  members c hc := (hconns c true fun heq => (h.skipped c heq).1 hc).mpr (h.members c hc)
  spareMembers c hc := (hconns c false fun heq => (h.skipped c heq).2 hc).mpr (h.spareMembers c hc)
  skipped := h.skipped
  complete htorn c hskip hc := by
    rw [hdefects] at htorn
    exact h.complete htorn c hskip ((hconns c true hskip).mp hc)

/-- What an allocated connection says about itself. -/
theorem listable_iff {quota : Bool} {conn : DbConn} (h : s.conns c = some conn) :
    listable s quota c ↔ conn.established = true ∧ decide (conn.queryNum ≠ 0) = quota := by
  rw [listable, h]
  constructor
  · rintro ⟨_, ⟨⟩, hlist⟩
    exact hlist
  · exact fun hlist => ⟨conn, rfl, hlist⟩

/-- A change to the connection in hand only. -/
theorem listable_congr {quota : Bool} (h : s'.conns c = s.conns c) :
    listable s' quota c ↔ listable s quota c := by
  simp only [listable, h]

/-- A connection is in the list only if it can take a query. -/
theorem Listed.not_mem_of_not_listable (h : Listed s skip spare done rest)
    (hc : ¬ listable s true c) : c ∉ done ++ rest :=
  fun hmem => hc (h.members c hmem)

/-- Taking a connection that is in neither list in hand. -/
theorem Listed.take (h : Listed s skip spare done rest) (hskip : ∀ d, skip = some d → d = c)
    (hc : c ∉ done ++ rest) (hspare : c ∉ spare) : Listed s (some c) spare done rest :=
  { h with
    skipped := fun d hd => by
      obtain rfl := Option.some.inj hd
      exact ⟨hc, hspare⟩
    complete := fun htorn d hd hlist => h.complete htorn d
      (fun hs => hd (by rw [hskip d hs])) hlist }

/-- The connection in hand cannot take a query, so it need not be in the list. -/
theorem Listed.drop (h : Listed s (some c) spare done rest) (hc : ¬ listable s true c) :
    Listed s none spare done rest :=
  { h with
    skipped := fun d hd => nomatch hd
    complete := fun htorn d _ hd => by
      refine h.complete htorn d (fun heq => ?_) hd
      obtain rfl := Option.some.inj heq
      exact hc hd }

/-- The connection in hand is put down where it need not be in the list. -/
theorem Listed.putDown (h : Listed s (some c) spare done rest) (hconn : s'.conn = s.conn)
    (hnext : ∀ d, d ≠ c → s'.connNext d = s.connNext d) (hdefects : s'.defects = s.defects)
    (hother : ∀ d, d ≠ c → s'.conns d = s.conns d) (hc : ¬ listable s' true c) :
    Listed s' none spare done rest := by
  obtain ⟨hout, hspare⟩ := h.skipped c rfl
  refine (h.congr hconn (fun d hd => hnext d ?_) hdefects fun d quota hd =>
    listable_congr (hother d fun heq => hd (by rw [heq]))).drop hc
  rintro rfl
  exact (List.mem_append.mp hd).elim hout hspare

/-- The list is empty exactly if its head is null. -/
theorem Listed.eq_nil_iff (h : Listed s skip spare done rest) :
    done ++ rest = [] ↔ s.conn.head = none :=
  h.chain.eq_nil_iff

/-- Taking the first connection of the list in hand. -/
theorem Listed.pop (h : Listed s none spare done []) (hhead : s.conn.head = some c) :
    ∃ done', Listed
      { s with conn := ⟨s.connNext c, if (s.connNext c).isNone then none else s.conn.tail⟩ }
      (some c) spare done' [] ∧ s.connNext c = done'.head? ∧
      (if (s.connNext c).isNone then none else s.conn.tail) ≠ some c := by
  have hchain := h.chain
  rw [List.append_nil, hhead] at hchain
  obtain ⟨done', rfl, hrest⟩ := hchain.exists_cons
  have hnodup := h.nodup
  simp only [List.append_nil, List.cons_append, List.nodup_cons, List.mem_append, not_or] at hnodup
  obtain ⟨⟨hdone, hspare⟩, hnodup⟩ := hnodup
  have hstart := hrest.start_eq
  refine ⟨done', ⟨?_, h.spareChain, by simpa using hnodup, ?_, ?_, h.spareMembers, ?_, ?_⟩, hstart, ?_⟩
  · simpa using hrest
  · cases done' with
    | nil => simp [hstart]
    | cons d l =>
      rcases h.tail with htail | ⟨_, htorn, t, ht, hnot, hnotSpare⟩
      · left
        simp [hstart, htail]
      · right
        refine ⟨rfl, htorn, t, by simpa [hstart] using ht, fun hmem => hnot ?_, hnotSpare⟩
        exact List.mem_cons_of_mem c hmem
  · exact fun d hd => h.members d (by simpa using List.mem_cons_of_mem c (by simpa using hd))
  · rintro d hd
    obtain rfl := Option.some.inj hd
    exact ⟨by simpa using hdone, hspare⟩
  · intro htorn d hskip hd
    have hmem := h.complete htorn d (by simp) hd
    simp only [List.append_nil, List.mem_cons] at hmem ⊢
    exact hmem.resolve_left fun heq => hskip (by rw [heq])
  · cases done' with
    | nil => simp [hstart]
    | cons d l =>
      simp only [hstart, List.head?_cons, Option.isNone_some, Bool.false_eq_true, if_false]
      rcases h.tail with htail | ⟨_, _, t, ht, hnot, _⟩
      · rw [htail, List.getLast?_cons_cons]
        intro heq
        exact hdone (List.mem_of_getLast? heq)
      · rw [ht]
        rintro heq
        obtain rfl := Option.some.inj heq
        exact hnot List.mem_cons_self

/-- Appending a connection, which may be lost if the tail is torn. -/
theorem Listed.append (h : Listed s skip spare done []) (hskip : ∀ d, skip = some d → d = c)
    (hc : listable s true c) (hout : c ∉ done) (hspare : c ∉ spare) :
    ∃ done', Listed
      { s with conn := (s.conn.pushClear s.connNext c).1, connNext := (s.conn.pushClear s.connNext c).2 }
      none spare done' [] := by
  have hnodup := h.nodup
  rw [List.append_nil] at hnodup
  have hother : ∀ d, (d ∈ done ∨ d ∈ spare) → s.conn.tail ≠ some d →
      (s.conn.pushClear s.connNext c).2 d = s.connNext d := by
    intro d hd htail
    refine Queue.pushClear_next ?_ htail
    rintro rfl
    exact hd.elim hout hspare
  have hspareTail : ∀ d ∈ spare, s.conn.tail ≠ some d := by
    intro d hd heq
    rcases h.tail with htail | ⟨_, _, t, ht, _, hnot⟩
    · have hlast := List.mem_of_getLast? (htail.symm.trans heq)
      exact (List.nodup_append.mp hnodup).2.2 d hlast d hd rfl
    · obtain rfl : t = d := Option.some.inj (ht.symm.trans heq)
      exact hnot hd
  have hspareChain := h.spareChain.congr fun d hd => hother d (.inr hd) (hspareTail d hd)
  rcases h.tail with htail | ⟨_, htorn, t, ht, hnot, hnotSpare⟩
  · have hchain := h.chain
    rw [List.append_nil] at hchain
    have hrep := (Represents.mk hchain htail).pushClear (List.nodup_append.mp hnodup).1 hout
    refine ⟨done ++ [c], by simpa using hrep.chain, hspareChain, ?_, .inl hrep.tail, ?_,
      h.spareMembers, fun d hd => (nomatch hd), ?_⟩
    · simp only [List.append_nil, List.append_assoc, List.singleton_append]
      exact (List.perm_middle.nodup_iff).mpr (List.nodup_cons.mpr ⟨by simp [hout, hspare], hnodup⟩)
    · intro d hd
      simp only [List.append_nil, List.mem_append, List.mem_singleton] at hd
      rcases hd with hd | rfl
      · exact h.members d (by simpa using hd)
      · exact hc
    · intro htorn d _ hd
      simp only [List.append_nil, List.mem_append, List.mem_singleton]
      by_cases heq : d = c
      · exact .inr heq
      · exact .inl (by simpa using h.complete htorn d (fun hs => heq (hskip d hs)) hd)
  · refine ⟨done, ?_, hspareChain, h.nodup, .inr ⟨rfl, htorn, c, rfl, hout, hspare⟩, h.members,
      h.spareMembers, fun d hd => (nomatch hd), fun hno => absurd htorn hno⟩
    have hhead : (s.conn.pushClear s.connNext c).1.head = s.conn.head := by
      simp only [Queue.pushClear, Queue.storeTail, ht]
    simp only [hhead]
    refine h.chain.congr fun d hd => hother d (.inl (by simpa using hd)) fun heq => ?_
    obtain rfl : t = d := Option.some.inj (ht.symm.trans heq)
    exact hnot (by simpa using hd)

/-- Chaining the connection in hand, which has no quota left, before the spare ones. -/
theorem Listed.pushSpare (h : Listed s (some c) spare done []) (hc : listable s false c)
    (htail : s.conn.tail ≠ some c) :
    Listed { s with connNext := Function.update s.connNext c spare.head? } none (c :: spare) done [] := by
  obtain ⟨hout, hspare⟩ := h.skipped c rfl
  refine ⟨h.chain.update hout _, ⟨rfl, ?_⟩, ?_, ?_, h.members, ?_, fun d hd => (nomatch hd), ?_⟩
  · simp only [Function.update_self]
    exact h.spareChain.update hspare _
  · rw [List.perm_middle.nodup_iff, List.nodup_cons, List.mem_append]
    exact ⟨fun hmem => hmem.elim hout hspare, h.nodup⟩
  · rcases h.tail with heq | ⟨_, htorn, t, ht, hnot, hnotSpare⟩
    · exact .inl heq
    · refine .inr ⟨rfl, htorn, t, ht, hnot, ?_⟩
      rintro hmem
      rcases List.mem_cons.mp hmem with rfl | hmem
      · exact htail ht
      · exact hnotSpare hmem
  · intro d hd
    rcases List.mem_cons.mp hd with rfl | hd
    · exact hc
    · exact h.spareMembers d hd
  · intro htorn d _ hd
    by_cases heq : d = c
    · subst heq
      obtain ⟨conn, hconn, _, hquota⟩ := hc
      obtain ⟨conn', hconn', _, hquota'⟩ := hd
      obtain rfl : conn = conn' := Option.some.inj (hconn.symm.trans hconn')
      rw [hquota] at hquota'
      cases hquota'
    · exact h.complete htorn d (fun hs => heq (Option.some.inj hs).symm) hd

/-- Taking the first spare connection. -/
theorem Listed.popSpare (h : Listed s none (c :: spare) done rest) :
    Listed s none spare done rest ∧ s.connNext c = spare.head? ∧ listable s false c ∧ c ∉ spare := by
  have hrest := h.spareChain.2
  have hstart := hrest.start_eq
  have hnodup := h.nodup
  rw [List.perm_middle.nodup_iff, List.nodup_cons, List.mem_append, not_or] at hnodup
  refine ⟨{ h with
    spareChain := hstart ▸ hrest
    nodup := hnodup.2
    tail := ?_
    spareMembers := fun d hd => h.spareMembers d (List.mem_cons_of_mem c hd)
    skipped := fun d hd => nomatch hd }, hstart, h.spareMembers c List.mem_cons_self, hnodup.1.2⟩
  rcases h.tail with heq | ⟨hrest', htorn, t, ht, hnot, hnotSpare⟩
  · exact .inl heq
  · exact .inr ⟨hrest', htorn, t, ht, hnot, fun hmem => hnotSpare (List.mem_cons_of_mem c hmem)⟩

/-- While the third loop of `on_process_queries` has connections to visit, the tail ends those it has
visited. -/
theorem Listed.tail_of_rest (h : Listed s skip spare done (c :: rest)) :
    s.conn.tail = done.getLast? :=
  h.tail.resolve_right fun hlost => by simp at hlost

/-- A branch that goes on record. -/
theorem Listed.note (h : Listed s skip spare done rest) (defect : Defect) :
    Listed { s with defects := defect :: s.defects } skip spare done rest :=
  { h with
    tail := h.tail.imp_right fun ⟨hrest, htorn, ht⟩ => ⟨hrest, List.mem_cons_of_mem _ htorn, ht⟩
    complete := fun htorn => h.complete fun hmem => htorn (List.mem_cons_of_mem _ hmem) }

/-- The loop starts with the tail at the head. -/
theorem Listed.restart (h : Listed s skip spare done []) (hconn : s'.conn = ⟨s.conn.head, none⟩)
    (hnext : s'.connNext = s.connNext) (hdefects : ∀ d ∈ s.defects, d ∈ s'.defects)
    (hconns : s'.conns = s.conns) : Listed s' skip spare [] done := by
  have hlist (c : ℕ) (quota : Bool) : listable s' quota c ↔ listable s quota c :=
    listable_congr (by rw [hconns])
  have hchain := h.chain
  have hnodup := h.nodup
  rw [List.append_nil] at hchain hnodup
  refine ⟨by rw [hconn, hnext]; exact hchain, hnext ▸ h.spareChain, hnodup, .inl (by simp [hconn]),
    fun c hc => (hlist c true).mpr (h.members c (by simpa using hc)),
    fun c hc => (hlist c false).mpr (h.spareMembers c hc), fun c hc => by simpa using h.skipped c hc,
    fun htorn c hc hlisted => ?_⟩
  simpa using h.complete (fun hmem => htorn (hdefects _ hmem)) c hc ((hlist c true).mp hlisted)

/-- The loop moves the tail to the connection it visits. -/
theorem Listed.advance (h : Listed s skip spare done (c :: rest)) :
    Listed { s with conn := ⟨s.conn.head, some c⟩ } skip spare (done ++ [c]) rest := by
  have hsplit : done ++ [c] ++ rest = done ++ c :: rest := by simp
  refine ⟨?_, h.spareChain, ?_, .inl (by simp), ?_, h.spareMembers, ?_, ?_⟩
  · rw [hsplit]
    exact h.chain
  all_goals
    rw [hsplit]
  · exact h.nodup
  · exact h.members
  · exact h.skipped
  · exact h.complete

/-- Or it takes the connection in hand, by redirecting the link that leads to it. -/
theorem Listed.cut (h : Listed s none spare done (c :: rest)) {conn : Queue ℕ}
    {connNext : ℕ → Option ℕ}
    (hcut : (s.conn.tail = none ∧ conn = ⟨s.connNext c, none⟩ ∧ connNext = s.connNext) ∨
      ∃ t, s.conn.tail = some t ∧ conn = s.conn ∧
        connNext = Function.update s.connNext t (s.connNext c)) :
    Listed { s with conn := conn, connNext := connNext } (some c) spare done rest := by
  have hnodup := h.nodup
  rw [List.append_assoc, List.cons_append, List.perm_middle.nodup_iff, List.nodup_cons,
    ← List.append_assoc] at hnodup
  obtain ⟨hout, hnodup⟩ := hnodup
  rw [List.mem_append, not_or] at hout
  have hmembers : ∀ d ∈ done ++ rest, d ∈ done ++ c :: rest := fun d hd => by
    simp only [List.mem_append, List.mem_cons] at hd ⊢
    exact hd.imp_right .inr
  have htail := h.tail_of_rest
  have hchains : Chain connNext conn.head (done ++ rest) ∧ conn.tail = done.getLast? ∧
      ∀ d ∈ spare, connNext d = s.connNext d := by
    rcases hcut with ⟨hnone, rfl, rfl⟩ | ⟨t, ht, rfl, rfl⟩
    · obtain rfl : done = [] := List.getLast?_eq_none_iff.mp (htail.symm.trans hnone)
      exact ⟨h.chain.2, rfl, fun _ _ => rfl⟩
    · have hlast : done.getLast? = some t := htail.symm.trans ht
      refine ⟨h.chain.unlink hlast (List.nodup_append.mp hnodup).1, htail, fun d hd => ?_⟩
      refine Function.update_of_ne (fun heq => ?_) _ _
      exact (List.nodup_append.mp hnodup).2.2 t
        (List.mem_append_left _ (List.mem_of_getLast? hlast)) d hd heq.symm
  refine ⟨hchains.1, h.spareChain.congr hchains.2.2, hnodup, .inl hchains.2.1,
    fun d hd => h.members d (hmembers d hd), h.spareMembers, fun d hd => ?_, fun htorn d hd hlist => ?_⟩
  · obtain rfl := Option.some.inj hd
    exact hout
  · have hmem := h.complete htorn d (by simp) hlist
    simp only [List.mem_append, List.mem_cons] at hmem ⊢
    exact hmem.imp_right fun hmem => hmem.resolve_left fun heq => hd (by rw [heq])

/-- What the walk of `remove_connection` finds: the link to the node, unless the node is missing. -/
theorem findPrev_spec {fuel : ℕ} {iter prev : Option ℕ} {l : List ℕ} {found : Option (Option ℕ)}
    (hchain : Chain s.connNext iter l) (hfind : findPrev s c fuel iter prev = some found) :
    (found = none ∧ c ∉ l) ∨
      ∃ l₁ l₂, l = l₁ ++ c :: l₂ ∧ found = some (l₁.getLast?.or prev) := by
  induction fuel generalizing iter prev l with
  | zero => cases hfind
  | succ fuel ih =>
    cases l with
    | nil =>
      obtain rfl : iter = none := hchain
      exact .inl ⟨(Option.some.inj hfind).symm, by simp⟩
    | cons i l =>
      obtain ⟨rfl, hrest⟩ := hchain
      rw [findPrev] at hfind
      split at hfind
      · rename_i heq
        exact .inr ⟨[], l, by simp [heq], (Option.some.inj hfind).symm⟩
      · rename_i hne
        obtain ⟨_, -, hfind⟩ := Option.bind_eq_some_iff.mp hfind
        rcases ih hrest hfind with ⟨hnone, hnot⟩ | ⟨l₁, l₂, rfl, hfound⟩
        · exact .inl ⟨hnone, by simp [Ne.symm hne, hnot]⟩
        · refine .inr ⟨i :: l₁, l₂, rfl, ?_⟩
          rw [hfound]
          cases l₁ with
          | nil => rfl
          | cons j l₁ =>
            rw [List.getLast?_cons_cons]
            cases hlast : (j :: l₁).getLast? with
            | none => simp at hlast
            | some k => rfl

/-- Unlinking writes to the queue and to links only. -/
theorem unlink_eq (s : DbConnPool) (c : ℕ) (prev : Option ℕ) : ∃ conn connNext,
    s.unlink c prev = { s with conn := conn, connNext := connNext } := by
  refine ⟨(s.unlink c prev).conn, (s.unlink c prev).connNext, ?_⟩
  cases prev <;> simp only [DbConnPool.unlink] <;> split <;> rfl

/-- Unlinking touches one link, and the tail only when the list becomes empty. -/
theorem unlink_books (s : DbConnPool) (c : ℕ) (prev : Option ℕ) :
    (s.unlink c prev).conns = s.conns ∧ (s.unlink c prev).defects = s.defects ∧
      (∀ d, prev ≠ some d → (s.unlink c prev).connNext d = s.connNext d) ∧
      (s.unlink c prev).conn.tail =
        if (s.unlink c prev).conn.head.isNone then none else s.conn.tail := by
  cases prev with
  | none =>
    simp only [DbConnPool.unlink]
    split <;> simp
  | some p =>
    have hnext : ∀ d, some p ≠ some d → Function.update s.connNext p (s.connNext c) d = s.connNext d :=
      fun d hd => Function.update_of_ne (fun heq => hd (by rw [heq])) _ _
    simp only [DbConnPool.unlink]
    split <;> exact ⟨rfl, rfl, hnext, by simp⟩

/-- The list after unlinking a node. -/
theorem unlink_chain {l₁ l₂ : List ℕ} (h : Chain s.connNext s.conn.head (l₁ ++ c :: l₂))
    (hnodup : (l₁ ++ l₂).Nodup) :
    Chain (s.unlink c l₁.getLast?).connNext (s.unlink c l₁.getLast?).conn.head (l₁ ++ l₂) := by
  cases hlast : l₁.getLast? with
  | none =>
    obtain rfl : l₁ = [] := List.getLast?_eq_none_iff.mp hlast
    simp only [DbConnPool.unlink]
    split <;> exact h.2
  | some p =>
    have hrest := h.unlink hlast hnodup
    simp only [DbConnPool.unlink]
    split <;> exact hrest

/-- Unlinking a node of the list; if the last of several goes, the tail is torn. -/
theorem Listed.unlink {l₁ l₂ : List ℕ} (h : Listed s skip spare (l₁ ++ c :: l₂) [])
    (hskip : ∀ d, skip = some d → d = c) (hspare : c ∉ spare) :
    let s' := s.unlink c l₁.getLast?
    Listed
      (if s'.conn.head.isSome && s'.conn.tail == some c then
        { s' with defects := .tornTail :: s'.defects } else s')
      (some c) spare (l₁ ++ l₂) [] := by
  intro s'
  obtain ⟨hconns, hdefects, hnext, htail'⟩ := unlink_books s c l₁.getLast?
  have hnodup := h.nodup
  rw [List.append_nil, List.append_assoc, List.cons_append, List.perm_middle.nodup_iff,
    List.nodup_cons, List.mem_append, List.mem_append, not_or, not_or, ← List.append_assoc] at hnodup
  obtain ⟨⟨hout₁, hout₂, -⟩, hnodup⟩ := hnodup
  have hdisjoint := (List.nodup_append.mp hnodup).2.2
  have hchain := h.chain
  rw [List.append_nil] at hchain
  have hchain' := unlink_chain hchain (List.nodup_append.mp hnodup).1
  have hspareChain : Chain s'.connNext spare.head? spare := by
    refine h.spareChain.congr fun d hd => hnext d fun heq => ?_
    exact hdisjoint d (List.mem_append_left _ (List.mem_of_getLast? heq)) d hd rfl
  have hlist : ∀ quota d, listable s' quota d ↔ listable s quota d := fun quota d =>
    listable_congr (congrFun hconns d)
  have hmembers : ∀ d ∈ l₁ ++ l₂, listable s' true d := by
    intro d hd
    refine (hlist true d).mpr (h.members d ?_)
    rw [List.append_nil, List.mem_append, List.mem_cons]
    exact (List.mem_append.mp hd).imp_right .inr
  have hcomplete : .tornTail ∉ s.defects → ∀ d, some c ≠ some d → listable s' true d →
      d ∈ l₁ ++ l₂ := by
    intro htorn d hd hlisted
    have hmem := h.complete htorn d (fun hs => hd (by rw [hskip d hs])) ((hlist true d).mp hlisted)
    rw [List.append_nil, List.mem_append, List.mem_cons] at hmem
    exact List.mem_append.mpr (hmem.imp_right fun hm => hm.resolve_left fun heq => hd (by rw [heq]))
  have hskipped : ∀ d, some c = some d → d ∉ l₁ ++ l₂ ++ [] ∧ d ∉ spare := by
    rintro d hd
    obtain rfl := Option.some.inj hd
    exact ⟨by simp [hout₁, hout₂], hspare⟩
  by_cases hempty : l₁ ++ l₂ = []
  · have hhead : s'.conn.head = none := hchain'.eq_nil_iff.mp hempty
    have htailNone : s'.conn.tail = none := by
      rw [htail', if_pos (by simpa using hhead)]
    rw [if_neg (by simp [hhead])]
    refine ⟨by simpa using hchain', hspareChain, by simpa using hnodup, .inl ?_, by simpa using hmembers,
      fun d hd => (hlist false d).mpr (h.spareMembers d hd), hskipped, ?_⟩
    · rw [htailNone, hempty]
      rfl
    · rw [hdefects, List.append_nil]
      exact hcomplete
  · have hhead : s'.conn.head ≠ none := fun hnone => hempty (hchain'.eq_nil_iff.mpr hnone)
    have htailSame : s'.conn.tail = s.conn.tail := by
      rw [htail', if_neg (by simpa using hhead)]
    have hisSome : s'.conn.head.isSome = true := Option.isSome_iff_ne_none.mpr hhead
    rw [hisSome, Bool.true_and, htailSame]
    rcases h.tail with htail | ⟨_, htorn, t, ht, hnot, hnotSpare⟩
    · cases l₂ with
      | nil =>
        -- the last of several nodes: the tail still names it
        have hlast : s.conn.tail = some c := by rw [htail]; simp
        rw [if_pos (by simp [hlast])]
        refine ⟨by simpa using hchain', hspareChain, by simpa using hnodup,
          .inr ⟨rfl, List.mem_cons_self, c, htailSame.trans hlast, by simpa using hout₁, hspare⟩,
          fun d hd => (listable_congr rfl).mpr (hmembers d (by simpa using hd)),
          fun d hd => (hlist false d).mpr (h.spareMembers d hd), hskipped,
          fun hno => absurd List.mem_cons_self hno⟩
      | cons d l₂ =>
        have hlast : s.conn.tail = (d :: l₂).getLast? := by
          rw [htail, List.getLast?_append, List.getLast?_cons_cons]
          cases hl : (d :: l₂).getLast? with
          | none => simp at hl
          | some e => rfl
        have hne : s.conn.tail ≠ some c := fun heq =>
          hout₂ (List.mem_of_getLast? (hlast.symm.trans heq))
        rw [if_neg (by simpa using hne)]
        refine ⟨by simpa using hchain', hspareChain, by simpa using hnodup, .inl ?_,
          by simpa using hmembers, fun d hd => (hlist false d).mpr (h.spareMembers d hd), hskipped, ?_⟩
        · rw [htailSame, hlast, List.getLast?_append]
          cases hl : (d :: l₂).getLast? with
          | none => simp at hl
          | some e => rfl
        · rw [hdefects, List.append_nil]
          exact hcomplete
    · have hne : s.conn.tail ≠ some c := by
        rw [ht]
        rintro heq
        obtain rfl := Option.some.inj heq
        exact hnot (by simp)
      rw [if_neg (by simpa using hne)]
      refine ⟨by simpa using hchain', hspareChain, by simpa using hnodup,
        .inr ⟨rfl, hdefects ▸ htorn, t, htailSame.trans ht, fun hmem => hnot ?_, hnotSpare⟩,
        by simpa using hmembers, fun d hd => (hlist false d).mpr (h.spareMembers d hd), hskipped,
        fun hno => absurd (hdefects ▸ htorn) hno⟩
      rw [List.mem_append, List.mem_cons]
      exact (List.mem_append.mp hmem).imp_right .inr

end FrameworkBenchmarks.H2o
