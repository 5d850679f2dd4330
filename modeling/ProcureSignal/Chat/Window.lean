/-
# What a chat window shows

The messages of a chat window against the stored thread of its conversation.  The window gets its
own copy of every exchange: the question from its own form, the reply piece by piece from the
frames of the socket.

* `agrees_of_step` : **one step** keeps the window, once the frames on their way have come, and the
  stored thread to the same exchanges;
* `window_agrees` : **what the window shows is what is stored**, up to the exchanges that were
  broken off;
* `reply_overtaken` : a second question in the middle of a reply cuts the reply off in the window.
-/
import ProcureSignal.Chat.Socket

namespace ProcureSignal.Chat.Window

variable {k : ℕ} {u c : String} {s t : State} {e : Event}

/-! ## Exchanges -/

/-- How an exchange ended: with its reply, or broken off before the question was stored, before the
reply began, or in the middle of it. -/
inductive Exchange
  | answered (question reply : String)
  | refused (question : String)
  | failed (question : String)
  | broken (question part : String)
  deriving DecidableEq, Repr

namespace Exchange

/-- What was asked. -/
def question : Exchange → String
  | answered q _ | refused q | failed q | broken q _ => q

/-- What the window shows of it. -/
def shown : Exchange → List Line
  | answered q r => [(.user, q), (.assistant, r)]
  | refused q | failed q => [(.user, q)]
  | broken q p => [(.user, q), (.assistant, p)]

/-- What is stored of it. -/
def stored : Exchange → List Line
  | answered q r => [(.user, q), (.assistant, r)]
  | refused _ => []
  | failed q | broken q _ => [(.user, q)]

/-- It has a reply. -/
def Answered : Exchange → Prop
  | answered _ _ => True
  | _ => False

theorem Answered.shown_eq {x : Exchange} (h : x.Answered) : x.shown = x.stored := by
  cases x with
  | answered => rfl
  | _ => cases h

end Exchange

/-- How far the exchange under way is. -/
inductive Current
  | quiet
  | asked (question : String)
  | kept (question : String)
  | replying (question part : String)
  deriving DecidableEq, Repr

namespace Current

def question : Current → List String
  | quiet => []
  | asked q | kept q | replying q _ => [q]

def shown : Current → List Line
  | quiet => []
  | asked q | kept q => [(.user, q)]
  | replying q p => [(.user, q), (.assistant, p)]

def stored : Current → List Line
  | quiet | asked _ => []
  | kept q | replying q _ => [(.user, q)]

/-- What it is once it is broken off. -/
def broken : Current → List Exchange
  | quiet => []
  | asked q => [.refused q]
  | kept q => [.failed q]
  | replying q p => [.broken q p]

theorem question_broken (cur : Current) : cur.broken.map (·.question) = cur.question := by
  cases cur <;> rfl

theorem shown_broken (cur : Current) : cur.broken.flatMap (·.shown) = cur.shown := by
  cases cur <;> rfl

theorem stored_broken (cur : Current) : cur.broken.flatMap (·.stored) = cur.stored := by
  cases cur <;> rfl

/-- Where it is at the server. -/
def At (k : ℕ) (u c : String) (s : State) : Current → Prop
  | quiet => s.up = [] ∧ ∀ p ∈ s.phase k, p = .waiting u c
  | asked q => s.up = [q] ∧ ∀ p ∈ s.phase k, p = .waiting u c
  | kept _ => s.up = [] ∧ s.phase k = some (.stored u c)
  | replying _ p => s.up = [] ∧ s.phase k = some (.streaming u c) ∧ p = String.join s.chunks

end Current

/-- What the window will show when all frames have come. -/
def eventual (s : State) : ChatState := s.down.foldl chatReducer s.window

/-- The window and the stored thread have the same exchanges. -/
structure Agrees (k : ℕ) (u c : String) (history : List Line) (xs : List Exchange) (cur : Current)
    (s : State) : Prop where
  settled : s.loading = .settled
  position : cur.At k u c s
  shown : (eventual s).messages = history ++ xs.flatMap (·.shown) ++ cur.shown
  stored : (messagesOf s.db c).map line = history ++ xs.flatMap (·.stored) ++ cur.stored
  awaited_le : s.awaited ≤ 1
  rest : s.awaited = 0 → s.down = [] ∧ cur = .quiet ∧ s.ending = false
  owed : cur ≠ .quiet ∨ s.ending = true → ∀ f ∈ s.down, ¬f.IsLast
  last : ∀ early f late, s.down = early ++ f :: late → f.IsLast → late = []
  ended : s.ending = true ∨ (∃ f ∈ s.down, f.type = .ended) →
    cur = .quiet ∧ ∃ xs' q r, xs = xs' ++ [.answered q r]

/-- The history of the window is on its way. -/
structure Opening (k : ℕ) (u c : String) (history : List Line) (s : State) : Prop where
  loading : s.loading ≠ .settled
  fetched : ∀ lines, s.loading = .answered lines → lines = history
  quiet : s.up = [] ∧ s.down = [] ∧ s.ending = false ∧ s.awaited = 0
  phase : ∀ p ∈ s.phase k, p = .waiting u c
  stored : (messagesOf s.db c).map line = history

/-! ## What may happen -/

/-- Questions are asked one at a time, once the history is there.  Nobody else writes to the
conversation, and the clock of the server does not go back. -/
def Waits (c : String) (s : State) : Event → Prop
  | .send _ => s.loading = .settled ∧ s.awaited = 0
  | .receive createdAt | .persist _ createdAt _ =>
      ∀ m ∈ messagesOf s.db c, m.createdAt ≤ createdAt
  | .other e => ∀ t ∈ Chat.step s.toState e, messagesOf t.db c = messagesOf s.db c
  | _ => True

instance (c : String) (s : State) (e : Event) : Decidable (Waits c s e) :=
  match e with
  | .send _ => inferInstanceAs (Decidable (_ ∧ _))
  | .receive _ | .persist _ _ _ => inferInstanceAs (Decidable (∀ m ∈ messagesOf s.db c, _))
  | .other e => inferInstanceAs (Decidable (∀ t ∈ Chat.step s.toState e, _))
  | .getMessages | .reset | .refuse _ | .begin | .stream _ | .finish | .fail _ | .deliver
  | .close => .isTrue trivial

/-- The exchange breaks off. -/
def Event.Breaks : Event → Prop
  | .refuse _ | .fail _ | .close => True
  | _ => False

instance (e : Event) : Decidable e.Breaks :=
  match e with
  | .refuse _ | .fail _ | .close => .isTrue trivial
  | .other _ | .getMessages | .reset | .send _ | .receive _ | .begin | .stream _ | .persist _ _ _
  | .finish | .deliver => .isFalse id

/-- What is asked. -/
def Event.asks : Event → List String
  | .send content => [content]
  | _ => []

/-! ## One step -/

variable {history : List Line} {xs : List Exchange} {cur : Current}

/-- More of a reply. -/
theorem chatReducer_stream {w : ChatState} {lines : List Line} {part delta : String}
    (h : w.messages = lines ++ [(.assistant, part)]) :
    (chatReducer w ⟨.stream, delta⟩).messages = lines ++ [(.assistant, part ++ delta)] := by
  simp [chatReducer, h]

/-- A frame that is sent while the last one of its exchange is owed. -/
theorem last_push {down : List ChatFrame} (howed : ∀ f ∈ down, ¬f.IsLast) (g : ChatFrame) :
    ∀ early f late, down ++ [g] = early ++ f :: late → f.IsLast → late = [] := by
  intro early f late heq hlast
  rcases List.eq_nil_or_concat' late with hnil | ⟨late', g', rfl⟩
  · exact hnil
  · rw [← List.cons_append, ← List.append_assoc] at heq
    have hmem : f ∈ down := by
      rw [(List.append_inj' heq rfl).1]
      exact List.mem_append_right _ List.mem_cons_self
    exact absurd hlast (howed f hmem)

/-- The server goes on without a frame. -/
theorem Agrees.serve (ha : Agrees k u c history xs cur s) {xs' : List Exchange} {cur' : Current}
    (hwindow : t.window = s.window) (hdown : t.down = s.down) (hloading : t.loading = s.loading)
    (hawaited : t.awaited = s.awaited) (hposition : cur'.At k u c t)
    (hshown : xs'.flatMap (·.shown) ++ cur'.shown = xs.flatMap (·.shown) ++ cur.shown)
    (hstored : (messagesOf t.db c).map line = history ++ xs'.flatMap (·.stored) ++ cur'.stored)
    (howed : cur' ≠ .quiet ∨ t.ending = true → cur ≠ .quiet ∨ s.ending = true)
    (hquiet : cur = .quiet → cur' = .quiet ∧ xs' = xs)
    (hending : t.ending = true → cur' = .quiet ∧ ∃ xs₀ q r, xs' = xs₀ ++ [.answered q r]) :
    Agrees k u c history xs' cur' t where
  settled := hloading.trans ha.settled
  position := hposition
  shown := by
    rw [eventual, hdown, hwindow, List.append_assoc, hshown, ← List.append_assoc]
    exact ha.shown
  stored := hstored
  awaited_le := hawaited ▸ ha.awaited_le
  rest hzero := by
    obtain ⟨hempty, hcur, hend⟩ := ha.rest (hawaited ▸ hzero)
    have hnot : ¬(cur' ≠ .quiet ∨ t.ending = true) := fun h => by
      rcases howed h with h | h
      · exact h hcur
      · rw [hend] at h
        cases h
    rw [not_or, not_not, Bool.not_eq_true] at hnot
    exact ⟨hdown.trans hempty, hnot⟩
  owed h := hdown ▸ ha.owed (howed h)
  last := hdown ▸ ha.last
  ended h := by
    rcases h with h | h
    · exact hending h
    · rw [hdown] at h
      obtain ⟨hcur, hxs⟩ := ha.ended (.inr h)
      obtain ⟨hcur', rfl⟩ := hquiet hcur
      exact ⟨hcur', hxs⟩

/-- The server sends a frame of the exchange under way. -/
theorem Agrees.push (ha : Agrees k u c history xs cur s) {xs' : List Exchange} {cur' : Current}
    {f : ChatFrame} (howed : cur ≠ .quiet ∨ s.ending = true) (hwindow : t.window = s.window)
    (hdown : t.down = s.down ++ [f]) (hloading : t.loading = s.loading)
    (hawaited : t.awaited = s.awaited) (hposition : cur'.At k u c t)
    (hshown : (chatReducer (eventual s) f).messages =
      history ++ xs'.flatMap (·.shown) ++ cur'.shown)
    (hstored : (messagesOf t.db c).map line = history ++ xs'.flatMap (·.stored) ++ cur'.stored)
    (hending : t.ending = false) (hlast : f.IsLast → cur' = .quiet)
    (hended : f.type = .ended → cur' = .quiet ∧ ∃ xs₀ q r, xs' = xs₀ ++ [.answered q r]) :
    Agrees k u c history xs' cur' t where
  settled := hloading.trans ha.settled
  position := hposition
  shown := by
    rw [← hshown, eventual, hdown, hwindow, List.foldl_concat]
    rfl
  stored := hstored
  awaited_le := hawaited ▸ ha.awaited_le
  rest hzero := by
    obtain ⟨-, hcur, hend⟩ := ha.rest (hawaited ▸ hzero)
    rcases howed with h | h
    · exact absurd hcur h
    · rw [hend] at h
      cases h
  owed h := by
    rw [hdown, List.forall_mem_append, List.forall_mem_singleton]
    refine ⟨ha.owed howed, fun hf => ?_⟩
    rcases h with h | h
    · exact h (hlast hf)
    · rw [hending] at h
      cases h
  last := by
    rw [hdown]
    exact last_push (ha.owed howed) f
  ended h := by
    rcases h with h | ⟨g, hg, htype⟩
    · rw [hending] at h
      cases h
    · rw [hdown, List.mem_append, List.mem_singleton] at hg
      rcases hg with hg | rfl
      · exact absurd (.inl htype) (ha.owed howed g hg)
      · exact hended htype

/-- Who is at the server when a question is on its way. -/
theorem Current.At.of_up (h : cur.At k u c s) {content : String} {up : List String}
    (hup : s.up = content :: up) : cur = .asked content ∧ up = [] := by
  cases cur with
  | asked q =>
      obtain ⟨rfl, rfl⟩ := List.cons.inj (hup.symm.trans h.1)
      exact ⟨rfl, rfl⟩
  | _ => cases hup.symm.trans h.1

theorem Current.At.of_stored (h : cur.At k u c s) {u' c' : String}
    (hphase : s.phase k = some (.stored u' c')) : ∃ q, cur = .kept q := by
  cases cur with
  | kept q => exact ⟨q, rfl⟩
  | quiet | asked => cases h.2 _ hphase
  | replying => cases hphase.symm.trans h.2.1

theorem Current.At.of_streaming (h : cur.At k u c s) {u' c' : String}
    (hphase : s.phase k = some (.streaming u' c')) : ∃ q p, cur = .replying q p := by
  cases cur with
  | replying q p => exact ⟨q, p, rfl⟩
  | quiet | asked => cases h.2 _ hphase
  | kept => cases hphase.symm.trans h.2

/-- The window and the stored thread go on together; only an exchange that breaks off has no
reply. -/
def Continues (k : ℕ) (u c : String) (history : List Line) (xs : List Exchange) (cur : Current)
    (e : Event) (t : State) : Prop :=
  ∃ xs' cur', Agrees k u c history xs' cur' t ∧
    xs'.map (·.question) ++ cur'.question = xs.map (·.question) ++ cur.question ++ e.asks ∧
    (¬e.Breaks → (∀ x ∈ xs, x.Answered) → ∀ x ∈ xs', x.Answered)

/-- The same exchanges. -/
theorem Agrees.continues (cur' : Current) (ha : Agrees k u c history xs cur' t)
    (hq : cur'.question = cur.question ++ e.asks) : Continues k u c history xs cur e t :=
  ⟨xs, cur', ha, by rw [hq, List.append_assoc], fun _ h => h⟩

theorem continues_send (ha : Agrees k u c history xs cur s) {content : String}
    (hwaits : Waits c s (.send content)) (h : step k u c s (.send content) = some t) :
    Continues k u c history xs cur (.send content) t := by
  rw [step] at h
  split_ifs at h
  cases h
  obtain ⟨hdown, rfl, hending⟩ := ha.rest hwaits.2
  have hwindow : eventual s = s.window := by rw [eventual, hdown, List.foldl_nil]
  have hup := ha.position.1
  refine Agrees.continues (.asked content) ⟨ha.settled, ⟨?_, ha.position.2⟩, ?_, ha.stored,
    ?_, fun hzero => ?_, fun _ => ?_, fun early f late heq => ?_, ?_⟩ rfl
  · rw [hup]
    rfl
  · have hshown := ha.shown
    rw [hwindow, Current.shown, List.append_nil] at hshown
    rw [eventual, hdown, List.foldl_nil, appendUserMessage, hshown]
    rfl
  · rw [hwaits.2]
  · cases hzero
  · rw [hdown]
    exact fun f hf => absurd hf List.not_mem_nil
  · rw [hdown] at heq
    simp at heq
  · rintro (hend | ⟨f, hf, -⟩)
    · rw [hending] at hend
      cases hend
    · rw [hdown] at hf
      cases hf

theorem continues_deliver (ha : Agrees k u c history xs cur s)
    (h : step k u c s .deliver = some t) : Continues k u c history xs cur .deliver t := by
  rw [step] at h
  split at h
  · rename_i f down hdown
    cases h
    have hpositive : s.awaited = 1 := by
      refine le_antisymm ha.awaited_le (Nat.one_le_iff_ne_zero.mpr fun hzero => ?_)
      rw [(ha.rest hzero).1] at hdown
      cases hdown
    have hmem : ∀ g ∈ down, g ∈ s.down := fun g hg => hdown ▸ List.mem_cons_of_mem f hg
    refine Agrees.continues cur ⟨ha.settled, ?_, ?_, ha.stored, ?_, fun hzero => ?_,
      fun howed g hg => ha.owed howed g (hmem g hg), fun early g late heq => ?_,
      fun hended => ?_⟩ (List.append_nil _).symm
    · have hposition := ha.position
      cases cur with
      | _ => exact hposition
    · rw [← ha.shown, eventual, eventual, hdown, List.foldl_cons]
    · dsimp only
      rw [hpositive]
      split_ifs <;> decide
    · dsimp only at hzero
      split_ifs at hzero with hf
      · have hnone : down = [] := ha.last [] f down (by rw [hdown]; rfl) hf
        have hnot : ¬(cur ≠ .quiet ∨ s.ending = true) := fun howed =>
          ha.owed howed f (by rw [hdown]; exact List.mem_cons_self) hf
        rw [not_or, not_not, Bool.not_eq_true] at hnot
        exact ⟨hnone, hnot⟩
      · rw [hpositive] at hzero
        cases hzero
    · exact ha.last (f :: early) g late (hdown.trans (congrArg (f :: ·) heq))
    · exact ha.ended (hended.imp_right fun ⟨g, hg, htype⟩ => ⟨g, hmem g hg, htype⟩)
  · cases h

theorem continues_receive (ha : Agrees k u c history xs cur s) {createdAt : Instant}
    (hwaits : Waits c s (.receive createdAt)) (h : step k u c s (.receive createdAt) = some t) :
    Continues k u c history xs cur (.receive createdAt) t := by
  rw [step] at h
  split at h
  · rename_i content up hup hending
    obtain ⟨rfl, rfl⟩ := ha.position.of_up hup
    obtain ⟨p, hp, rfl⟩ := Option.map_eq_some_iff.mp h
    obtain ⟨-, hphase, hdb⟩ := send_eq_some hp ha.position.2
    refine Agrees.continues (.kept content) (ha.serve rfl rfl rfl rfl ?_ rfl ?_
      (fun _ => .inl (by simp)) (by simp) fun hend => ?_) rfl
    · exact ⟨rfl, hphase⟩
    · have hstored := ha.stored
      rw [Current.stored, List.append_nil] at hstored
      dsimp only
      rw [hdb, messagesOf_storeMessage, List.map_append, hstored]
      · rfl
      · rfl
      · exact hwaits
    · rw [hending] at hend
      cases hend
  · cases h

theorem continues_persist (ha : Agrees k u c history xs cur s) {tokensUsed : Option ℕ}
    {createdAt now : Instant} (hwaits : Waits c s (.persist tokensUsed createdAt now))
    (h : step k u c s (.persist tokensUsed createdAt now) = some t) :
    Continues k u c history xs cur (.persist tokensUsed createdAt now) t := by
  rw [step] at h
  obtain ⟨p, hp, rfl⟩ := Option.map_eq_some_iff.mp h
  have hstreaming : ∃ u' c', s.phase k = some (.streaming u' c') := by
    rw [Chat.step] at hp
    split at hp
    · rename_i u' c' hphase
      exact ⟨u', c', hphase⟩
    · cases hp
  obtain ⟨u', c', hphase⟩ := hstreaming
  obtain ⟨q, r, rfl⟩ := ha.position.of_streaming hphase
  obtain ⟨hup, hphase, rfl⟩ := ha.position
  obtain ⟨hphase', hkey, hdb⟩ := reply_eq_some hp hphase
  refine ⟨xs ++ [.answered q (String.join s.chunks)], .quiet,
    ha.serve rfl rfl rfl rfl ⟨hup, fun p hp => ?_⟩ ?_ ?_ (fun _ => .inl (by simp)) (by simp)
      fun _ => ⟨rfl, xs, q, _, rfl⟩, ?_, fun _ hall x hx => ?_⟩
  · rw [hphase'] at hp
    exact (Option.some.inj hp).symm
  · rw [List.flatMap_append, List.append_assoc]
    rfl
  · dsimp only
    rw [hdb, messagesOf_storeMessage, List.map_append, ha.stored, List.flatMap_append]
    · simp [Current.stored, Exchange.stored, line]
    · rfl
    · exact hwaits
  · simp [Current.question, Event.asks, Exchange.question]
  · rcases List.mem_append.mp hx with hx | hx
    · exact hall x hx
    · rw [List.mem_singleton.mp hx]
      trivial

theorem continues_begin (ha : Agrees k u c history xs cur s) (h : step k u c s .begin = some t) :
    Continues k u c history xs cur .begin t := by
  rw [step] at h
  obtain ⟨p, hp, rfl⟩ := Option.map_eq_some_iff.mp h
  have hkept : ∃ u' c', s.phase k = some (.stored u' c') := by
    rw [Chat.step] at hp
    split at hp
    · rename_i u' c' hphase
      exact ⟨u', c', hphase⟩
    · cases hp
  obtain ⟨u', c', hphase⟩ := hkept
  obtain ⟨q, rfl⟩ := ha.position.of_stored hphase
  obtain ⟨hup, hphase⟩ := ha.position
  obtain ⟨hphase', hdb⟩ := history_eq_some hp hphase
  refine Agrees.continues (.replying q "") (ha.push (.inl (by simp)) rfl rfl rfl rfl ?_ ?_ ?_ ?_
    (fun hlast => ?_) (by simp)) rfl
  · exact ⟨hup, hphase', rfl⟩
  · rw [chatReducer, ha.shown, List.append_assoc]
    rfl
  · dsimp only
    rw [hdb]
    exact ha.stored
  · exact Bool.eq_false_of_not_eq_true fun hend => by cases (ha.ended (.inl hend)).1
  · rcases hlast with hlast | hlast
    · cases hlast
    · cases hlast

theorem continues_stream (ha : Agrees k u c history xs cur s) {delta : String}
    (h : step k u c s (.stream delta) = some t) :
    Continues k u c history xs cur (.stream delta) t := by
  rw [step] at h
  split at h
  · rename_i hphase
    cases h
    obtain ⟨q, r, rfl⟩ := ha.position.of_streaming hphase
    obtain ⟨hup, hphase, rfl⟩ := ha.position
    refine Agrees.continues (.replying q (String.join s.chunks ++ delta))
      (ha.push (.inl (by simp)) rfl rfl rfl rfl ?_ ?_ ha.stored ?_ (fun hlast => ?_) (by simp)) rfl
    · refine ⟨hup, hphase, ?_⟩
      rw [String.join, String.join, List.foldl_concat]
    · have hlines : (eventual s).messages = (history ++ xs.flatMap (·.shown) ++ [(.user, q)]) ++
          [(.assistant, String.join s.chunks)] := by
        rw [ha.shown, List.append_assoc _ [_] [_]]
        rfl
      rw [chatReducer_stream hlines, List.append_assoc _ [_] [_]]
      rfl
    · exact Bool.eq_false_of_not_eq_true fun hend => by cases (ha.ended (.inl hend)).1
    · rcases hlast with hlast | hlast
      · cases hlast
      · cases hlast
  · cases h

theorem continues_finish (ha : Agrees k u c history xs cur s) (h : step k u c s .finish = some t) :
    Continues k u c history xs cur .finish t := by
  rw [step] at h
  split_ifs at h with hending
  cases h
  obtain ⟨rfl, hxs⟩ := ha.ended (.inl hending)
  exact Agrees.continues .quiet (ha.push (.inr hending) rfl rfl rfl rfl ha.position ha.shown
    ha.stored rfl (fun _ => rfl) fun _ => ⟨rfl, hxs⟩) rfl

/-- The exchange under way is broken off. -/
theorem Agrees.continues_broken (ha : Agrees k u c history (xs ++ cur.broken) .quiet t)
    (hbreaks : e.Breaks) (hasks : e.asks = []) : Continues k u c history xs cur e t := by
  refine ⟨xs ++ cur.broken, .quiet, ha, ?_, fun hnot => absurd hbreaks hnot⟩
  rw [List.map_append, cur.question_broken, hasks]
  rfl

theorem Agrees.shown_broken (ha : Agrees k u c history xs cur s) : (eventual s).messages =
    history ++ (xs ++ cur.broken).flatMap (·.shown) ++ Current.quiet.shown := by
  rw [ha.shown, List.flatMap_append, cur.shown_broken, ← List.append_assoc]
  exact (List.append_nil _).symm

theorem Agrees.stored_broken (ha : Agrees k u c history xs cur s) :
    (messagesOf s.db c).map line =
      history ++ (xs ++ cur.broken).flatMap (·.stored) ++ Current.quiet.stored := by
  rw [ha.stored, List.flatMap_append, cur.stored_broken, ← List.append_assoc]
  exact (List.append_nil _).symm

theorem continues_refuse (ha : Agrees k u c history xs cur s) {exc : String}
    (h : step k u c s (.refuse exc) = some t) :
    Continues k u c history xs cur (.refuse exc) t := by
  rw [step] at h
  split at h
  · rename_i content up _ _ hup hending hphase
    cases h
    obtain ⟨rfl, rfl⟩ := ha.position.of_up hup
    exact Agrees.continues_broken (ha.push (.inl (by simp)) rfl rfl rfl rfl ⟨rfl, ha.position.2⟩
      ha.shown_broken ha.stored_broken hending (fun _ => rfl) (by simp [failure])) trivial rfl
  · cases h

theorem continues_fail (ha : Agrees k u c history xs cur s) {exc : String}
    (h : step k u c s (.fail exc) = some t) : Continues k u c history xs cur (.fail exc) t := by
  rw [step] at h
  obtain ⟨p, hp, rfl⟩ := Option.map_eq_some_iff.mp h
  obtain ⟨hphase, hdb⟩ := fail_eq_some hp
  have hposition := ha.position
  have hinside : cur ≠ .quiet ∧ s.up = [] ∧ p.phase k = some (.waiting u c) := by
    rcases hphase with ⟨u', c', hphase, hafter⟩ | ⟨u', c', hphase, hafter⟩
    · obtain ⟨q, rfl⟩ := hposition.of_stored hphase
      obtain ⟨rfl, rfl⟩ := Phase.stored.inj (Option.some.inj (hphase.symm.trans hposition.2))
      exact ⟨by simp, hposition.1, hafter⟩
    · obtain ⟨q, r, rfl⟩ := hposition.of_streaming hphase
      obtain ⟨rfl, rfl⟩ := Phase.streaming.inj (Option.some.inj (hphase.symm.trans hposition.2.1))
      exact ⟨by simp, hposition.1, hafter⟩
  obtain ⟨hcur, hup, hafter⟩ := hinside
  refine Agrees.continues_broken (ha.push (.inl hcur) rfl rfl rfl rfl ⟨hup, fun p' hp' => ?_⟩
    ha.shown_broken ?_ ?_ (fun _ => rfl) (by simp [failure])) trivial rfl
  · rw [hafter] at hp'
    exact (Option.some.inj hp').symm
  · dsimp only
    rw [hdb]
    exact ha.stored_broken
  · exact Bool.eq_false_of_not_eq_true fun hend => hcur (ha.ended (.inl hend)).1

theorem continues_close (ha : Agrees k u c history xs cur s) (h : step k u c s .close = some t) :
    Continues k u c history xs cur .close t := by
  cases h
  refine Agrees.continues_broken (ha.serve rfl rfl rfl rfl ⟨rfl, fun p hp => ?_⟩ ?_
    ha.stored_broken ?_ ?_ (by simp)) trivial rfl
  · rw [show (s.enter k none).phase k = none from Function.update_self _ _ _] at hp
    cases hp
  · rw [List.flatMap_append, cur.shown_broken]
    exact List.append_nil _
  · rintro (hquiet | hending)
    · exact absurd rfl hquiet
    · cases hending
  · rintro rfl
    exact ⟨rfl, List.append_nil _⟩

theorem continues_other (ha : Agrees k u c history xs cur s) {e : Chat.Event}
    (hwaits : Waits c s (.other e)) (h : step k u c s (.other e) = some t) :
    Continues k u c history xs cur (.other e) t := by
  rw [step] at h
  split_ifs at h with hsocket
  obtain ⟨p, hp, rfl⟩ := Option.map_eq_some_iff.mp h
  have hphase := phase_of_step hp hsocket
  refine Agrees.continues cur (ha.serve rfl rfl rfl rfl ?_ rfl ?_ id (fun h => ⟨h, rfl⟩)
    fun hending => ha.ended (.inl hending)) (List.append_nil _).symm
  · have hposition := ha.position
    cases cur with
    | quiet | asked => exact ⟨hposition.1, fun p' hp' => hposition.2 p' (hphase ▸ hp')⟩
    | kept => exact ⟨hposition.1, hphase.trans hposition.2⟩
    | replying => exact ⟨hposition.1, hphase.trans hposition.2.1, hposition.2.2⟩
  · dsimp only
    rw [hwaits p hp]
    exact ha.stored

/-- **One step** keeps the window, once the frames on their way have come, and the stored thread to
the same exchanges. -/
theorem agrees_of_step (ha : Agrees k u c history xs cur s) (hwaits : Waits c s e)
    (h : step k u c s e = some t) : Continues k u c history xs cur e t := by
  cases e with
  | other e => exact continues_other ha hwaits h
  | getMessages | reset =>
      rw [step, ha.settled] at h
      cases h
  | send content => exact continues_send ha hwaits h
  | receive createdAt => exact continues_receive ha hwaits h
  | refuse exc => exact continues_refuse ha h
  | begin => exact continues_begin ha h
  | stream delta => exact continues_stream ha h
  | persist tokensUsed createdAt now => exact continues_persist ha hwaits h
  | finish => exact continues_finish ha h
  | fail exc => exact continues_fail ha h
  | deliver => exact continues_deliver ha h
  | close => exact continues_close ha h

/-- **One step** of a window whose history is on its way. -/
theorem opening_step (ho : Opening k u c history s) (hwaits : Waits c s e)
    (h : step k u c s e = some t) :
    e.asks = [] ∧ (Opening k u c history t ∨ Agrees k u c history [] .quiet t) := by
  obtain ⟨hup, hdown, hending, hawaited⟩ := ho.quiet
  have hat : Current.quiet.At k u c s := ⟨hup, ho.phase⟩
  cases e with
  | other e =>
      rw [step] at h
      split_ifs at h with hsocket
      obtain ⟨p, hp, rfl⟩ := Option.map_eq_some_iff.mp h
      refine ⟨rfl, .inl ⟨ho.loading, ho.fetched, ho.quiet, ?_, ?_⟩⟩
      · exact fun p' hp' => ho.phase p' (phase_of_step hp hsocket ▸ hp')
      · dsimp only
        rw [hwaits p hp]
        exact ho.stored
  | getMessages =>
      rw [step] at h
      split at h
      · cases h
        refine ⟨rfl, .inl ⟨?_, fun lines hlines => ?_, ho.quiet, ho.phase, ho.stored⟩⟩
        · dsimp only
          split_ifs <;> simp
        · dsimp only at hlines
          split_ifs at hlines
          exact (Loading.answered.inj hlines).symm.trans ho.stored
      · cases h
  | reset =>
      rw [step] at h
      split at h
      · rename_i lines hloading
        cases h
        obtain rfl := ho.fetched lines hloading
        refine ⟨rfl, .inr ⟨rfl, ⟨hup, ho.phase⟩, ?_, ?_, ?_, fun _ => ⟨hdown, rfl, hending⟩, ?_, ?_,
          ?_⟩⟩
        · rw [eventual, hdown]
          simp [initialChatState, Current.shown]
        · simp [ho.stored, Current.stored]
        · rw [hawaited]
          exact Nat.zero_le 1
        · rw [hdown]
          exact fun _ f hf => absurd hf List.not_mem_nil
        · rw [hdown]
          simp
        · rw [hending, hdown]
          simp
      · cases h
  | send content => exact absurd hwaits.1 ho.loading
  | receive createdAt =>
      rw [step, hup] at h
      cases h
  | refuse exc =>
      rw [step, hup] at h
      cases h
  | begin =>
      rw [step] at h
      obtain ⟨p, hp, -⟩ := Option.map_eq_some_iff.mp h
      rw [Chat.step] at hp
      split at hp
      · rename_i hphase
        obtain ⟨q, hq⟩ := hat.of_stored hphase
        cases hq
      · cases hp
  | stream delta =>
      rw [step] at h
      split at h
      · rename_i hphase
        obtain ⟨q, r, hq⟩ := hat.of_streaming hphase
        cases hq
      · cases h
  | persist tokensUsed createdAt now =>
      rw [step] at h
      obtain ⟨p, hp, -⟩ := Option.map_eq_some_iff.mp h
      rw [Chat.step] at hp
      split at hp
      · rename_i hphase
        obtain ⟨q, r, hq⟩ := hat.of_streaming hphase
        cases hq
      · cases hp
  | finish =>
      rw [step, hending] at h
      cases h
  | fail exc =>
      rw [step] at h
      obtain ⟨p, hp, -⟩ := Option.map_eq_some_iff.mp h
      rcases (fail_eq_some hp).1 with ⟨u', c', hphase, -⟩ | ⟨u', c', hphase, -⟩
      · obtain ⟨q, hq⟩ := hat.of_stored hphase
        cases hq
      · obtain ⟨q, r, hq⟩ := hat.of_streaming hphase
        cases hq
  | deliver =>
      rw [step, hdown] at h
      cases h
  | close =>
      cases h
      refine ⟨rfl, .inl ⟨ho.loading, ho.fetched, ⟨rfl, hdown, rfl, hawaited⟩, fun p hp => ?_,
        ho.stored⟩⟩
      rw [show (s.enter k none).phase k = none from Function.update_self _ _ _] at hp
      cases hp

/-! ## Runs -/

/-- A window has been opened on a socket that waits for questions. -/
structure Opened (k : ℕ) (u c : String) (s : State) : Prop where
  loading : s.loading = .requested
  quiet : s.up = [] ∧ s.down = [] ∧ s.ending = false ∧ s.awaited = 0
  phase : s.phase k = some (.waiting u c)

/-- The questions of a run, oldest first. -/
def asked (tr : List (State × Event)) : List String := tr.reverse.flatMap (·.2.asks)

theorem asked_cons (x : State × Event) (tr : List (State × Event)) :
    asked (x :: tr) = asked tr ++ x.2.asks := by
  simp [asked]

variable {tr : List (State × Event)}

/-- Where a run is. -/
theorem exchanges_of_execution (h : Execution (step k u c) (Waits c) s tr t)
    (hs : Opened k u c s) :
    (asked tr = [] ∧ Opening k u c ((messagesOf s.db c).map line) t) ∨
    ∃ xs cur, Agrees k u c ((messagesOf s.db c).map line) xs cur t ∧
      xs.map (·.question) ++ cur.question = asked tr ∧
      ((∀ x ∈ tr, ¬x.2.Breaks) → ∀ x ∈ xs, x.Answered) := by
  refine h.traceInvariant (I := fun tr t =>
    (asked tr = [] ∧ Opening k u c ((messagesOf s.db c).map line) t) ∨
    ∃ xs cur, Agrees k u c ((messagesOf s.db c).map line) xs cur t ∧
      xs.map (·.question) ++ cur.question = asked tr ∧
      ((∀ x ∈ tr, ¬x.2.Breaks) → ∀ x ∈ xs, x.Answered)) ?_ ?_
  · refine .inl ⟨rfl, ?_, fun lines hlines => ?_, hs.quiet, fun p hp => ?_, rfl⟩
    · rw [hs.loading]
      simp
    · rw [hs.loading] at hlines
      cases hlines
    · rw [hs.phase] at hp
      exact (Option.some.inj hp).symm
  · rintro tr p e q (⟨hnone, ho⟩ | ⟨xs, cur, ha, hasked, hall⟩) hwaits hstep
    · obtain ⟨hasks, ho | ha⟩ := opening_step ho hwaits hstep
      · exact .inl ⟨by rw [asked_cons, hnone, hasks]; rfl, ho⟩
      · refine .inr ⟨[], .quiet, ha, ?_, fun _ x hx => absurd hx List.not_mem_nil⟩
        rw [asked_cons, hnone, hasks]
        rfl
    · obtain ⟨xs', cur', ha', hquestions, hall'⟩ := agrees_of_step ha hwaits hstep
      refine .inr ⟨xs', cur', ha', ?_, fun hnot => ?_⟩
      · rw [hquestions, hasked, asked_cons]
      · obtain ⟨hlast, hearlier⟩ := List.forall_mem_cons.mp hnot
        exact hall' hlast (hall hearlier)

/-- **What the window shows is what is stored.**  In every run in which the questions are asked one
at a time, the window and the stored thread have the same exchanges as soon as no question waits for
its last frame: each of the questions in order, with its whole reply on both sides unless the
exchange was broken off.  Without a failure the two are equal.  Whenever an `end` frame comes, the
reply above it is complete and committed. -/
theorem window_agrees (h : Execution (step k u c) (Waits c) s tr t) (hs : Opened k u c s) :
    (t.loading = .settled → t.awaited = 0 → ∃ xs : List Exchange,
      xs.map (·.question) = asked tr ∧
      t.window.messages = (messagesOf s.db c).map line ++ xs.flatMap (·.shown) ∧
      (messagesOf t.db c).map line = (messagesOf s.db c).map line ++ xs.flatMap (·.stored) ∧
      ((∀ x ∈ tr, ¬x.2.Breaks) → t.window.messages = (messagesOf t.db c).map line)) ∧
    ∀ x ∈ tr, x.2 = .deliver → x.1.down.head?.map (·.type) = some .ended →
      ∀ q, step k u c x.1 x.2 = some q → ∃ shown stored question reply,
        q.window.messages = shown ++ [(.user, question), (.assistant, reply)] ∧
        (messagesOf q.db c).map line = stored ++ [(.user, question), (.assistant, reply)] := by
  constructor
  · intro hsettled hzero
    rcases exchanges_of_execution h hs with ⟨-, ho⟩ | ⟨xs, cur, ha, hasked, hall⟩
    · exact absurd hsettled ho.loading
    · obtain ⟨hdown, rfl, -⟩ := ha.rest hzero
      have hshown := ha.shown
      have hstored := ha.stored
      rw [eventual, hdown, List.foldl_nil, Current.shown, List.append_nil] at hshown
      rw [Current.stored, List.append_nil] at hstored
      rw [Current.question, List.append_nil] at hasked
      refine ⟨xs, hasked, hshown, hstored, fun hnot => ?_⟩
      rw [hshown, hstored]
      exact congrArg _ (List.flatMap_congr fun x hx => (hall hnot x hx).shown_eq)
  · rintro ⟨p, e⟩ hx rfl hhead q hq
    obtain ⟨tr₁, -, -, -, h₁, -, -, -⟩ := h.exists_of_mem hx
    obtain ⟨f, hf, htype⟩ := Option.map_eq_some_iff.mp hhead
    obtain ⟨down, hdown⟩ := List.head?_eq_some_iff.mp hf
    rcases exchanges_of_execution h₁ hs with ⟨-, ho⟩ | ⟨xs, cur, ha, -, -⟩
    · rw [ho.quiet.2.1] at hdown
      cases hdown
    · have hmem : f ∈ p.down := hdown ▸ List.mem_cons_self
      obtain ⟨rfl, xs', question, reply, rfl⟩ := ha.ended (.inr ⟨f, hmem, htype⟩)
      obtain rfl := ha.last [] f down hdown (.inl htype)
      rw [step, hdown] at hq
      cases hq
      have hshown := ha.shown
      rw [eventual, hdown] at hshown
      refine ⟨(messagesOf s.db c).map line ++ xs'.flatMap (·.shown),
        (messagesOf s.db c).map line ++ xs'.flatMap (·.stored), question, reply, ?_, ?_⟩
      · refine hshown.trans ?_
        simp [Exchange.shown, Current.shown]
      · refine ha.stored.trans ?_
        simp [Exchange.stored, Current.stored]

/-! ### Two windows -/

/-- `ada` has opened a conversation and a window on it. -/
def connected : State :=
  ⟨(execute Chat.step Chat.start [.connect 0 "ada" "c", .ensure 0, .insert 0]).getD Chat.start,
    initialChatState [], .requested, [], [], [], false, 0⟩

theorem opened_connected : Opened 0 "ada" "c" connected := ⟨rfl, ⟨rfl, rfl, rfl, rfl⟩, rfl⟩

/-- A question and its reply. -/
def patient : List Event :=
  [.getMessages, .reset, .send "who is late?", .receive 1, .begin, .stream "nob", .deliver,
    .stream "ody", .persist (some 12) 2 2, .finish, .deliver, .deliver, .deliver]

/-- A second question before the reply is complete. -/
def impatient : List Event :=
  [.getMessages, .reset, .send "who is late?", .receive 1, .begin, .stream "nob", .deliver,
    .deliver, .send "and when?", .stream "ody", .persist (some 12) 2 2, .finish, .deliver, .deliver,
    .receive 3, .begin, .persist none 4 4, .finish, .deliver, .deliver]

/-- The window shows the reply that is stored. -/
theorem window_agrees_patient : ∃ tr t, Execution (step 0 "ada" "c") (Waits "c") connected tr t ∧
    t.window.messages = [(.user, "who is late?"), (.assistant, "nobody")] ∧
    t.window.messages = (messagesOf t.db "c").map line := by
  obtain ⟨tr, t, hrun, hsettled, hawaited, hnot, hshown⟩ := Execution.exists_of_execute
    (P := fun tr (t : State) => t.loading = .settled ∧ t.awaited = 0 ∧
      (∀ x ∈ tr, ¬x.2.Breaks) ∧
      t.window.messages = [(.user, "who is late?"), (.assistant, "nobody")]) patient
    ⟨_, rfl, rfl, rfl, by decide +kernel, rfl⟩
    (by decide +kernel : ∀ x ∈ traceOf (step 0 "ada" "c") connected patient [],
      Waits "c" x.1 x.2)
  obtain ⟨xs, -, -, -, hsame⟩ := (window_agrees hrun opened_connected).1 hsettled hawaited
  exact ⟨tr, t, hrun, hshown, hsame hnot⟩

/-- **A reply that is overtaken** loses its end in the window. -/
theorem reply_overtaken : ∃ tr t, Execution (step 0 "ada" "c") unguarded connected tr t ∧
    t.awaited = 0 ∧
    t.window.messages = [(.user, "who is late?"), (.assistant, "nob"), (.user, "and when?"),
      (.assistant, "")] ∧
    (messagesOf t.db "c").map line = [(.user, "who is late?"), (.assistant, "nobody"),
      (.user, "and when?"), (.assistant, "")] := by
  refine Execution.exists_of_execute (P := fun _ (t : State) => t.awaited = 0 ∧
      t.window.messages = [(.user, "who is late?"), (.assistant, "nob"), (.user, "and when?"),
        (.assistant, "")] ∧
      (messagesOf t.db "c").map line = [(.user, "who is late?"), (.assistant, "nobody"),
        (.user, "and when?"), (.assistant, "")]) impatient
    ⟨_, rfl, rfl, rfl, ?_⟩ fun _ _ => trivial
  decide +kernel

end ProcureSignal.Chat.Window
