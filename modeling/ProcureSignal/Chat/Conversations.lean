/-
# Chat conversations

`api/routers/chat.py`, with any number of sockets and requests at the same time.  A socket
has its conversation checked once, before it is accepted; the conversation is created on
demand after that, and each message is stored and each history read in a session of its own.

* `uses_of_step` : who uses a conversation after a step used it before, or has just passed the
  ownership check;
* `private_of_execution` : **messages stay with their author as long as the ownership check
  passes nobody for an id that somebody else uses**.
-/
import ProcureSignal.Models
import ProcureSignal.Library.Execution

namespace ProcureSignal.Chat

/-! ## Rows -/

/-- `ChatConversation`. -/
structure ChatConversation where
  userId : String
  conversationId : String
  title : Option String
  messageCount : ℕ
  lastMessageAt : Option Instant
  deriving DecidableEq, Repr

/-- The role of a message. -/
inductive MessageRole
  | user
  | assistant
  deriving DecidableEq, Repr

/-- `ChatMessage`. -/
structure ChatMessage where
  userId : String
  conversationId : String
  role : MessageRole
  content : String
  tokensUsed : Option ℕ
  createdAt : Instant
  deriving DecidableEq, Repr

/-- The unique key of a conversation. -/
def conversationKey (c : ChatConversation) : Option String := some c.conversationId

/-- The two tables. -/
structure Store where
  conversations : UniqueTable ChatConversation String [conversationKey]
  messages : Table ChatMessage

/-- `_get_conversation`. -/
def getConversation (db : Store) (conversationId : String) : Option ChatConversation :=
  db.conversations.values.find? fun c => c.conversationId = conversationId

/-- Before in `ORDER BY created_at, id`. -/
def messageLe (m m' : ℕ × ChatMessage) : Prop :=
  m.2.createdAt < m'.2.createdAt ∨ m.2.createdAt = m'.2.createdAt ∧ m.1 ≤ m'.1

instance : DecidableRel messageLe := fun _ _ => inferInstanceAs (Decidable (_ ∨ _))

/-- The messages of a conversation, as the endpoints select them. -/
def messagesOf (db : Store) (conversationId : String) : List ChatMessage :=
  ((db.messages.rows.filter fun m => m.2.conversationId = conversationId).insertionSort
    messageLe).map (·.2)

/-- An empty conversation. -/
def newConversation (userId conversationId : String) : ChatConversation :=
  ⟨userId, conversationId, none, 0, none⟩

/-- `if not conversation.title: conversation.title = text[:200]`. -/
def titled (text : String) (c : ChatConversation) : ChatConversation :=
  if c.title.getD "" = "" then { c with title := some (String.ofList (text.toList.take 200)) }
  else c

/-- One more exchange. -/
def answered (now : Instant) (c : ChatConversation) : ChatConversation :=
  { c with messageCount := c.messageCount + 2, lastMessageAt := some now }

/-- No exchange renames a conversation. -/
theorem key_titled (text : String) (c : ChatConversation) :
    conversationKey (titled text c) = conversationKey c := by
  unfold titled
  split
  · rfl
  · rfl

/-- Store a message; the row of its conversation, if there is one, changes with it. -/
def storeMessage (db : Store) (m : ChatMessage) (f : ChatConversation → ChatConversation)
    (hf : ∀ c, conversationKey (f c) = conversationKey c) : Store where
  conversations := db.conversations.update (fun _ c => c.conversationId = m.conversationId) f
    fun _ hk => List.mem_singleton.mp hk ▸ hf
  messages := db.messages.insert m

/-! ## Sockets and requests -/

/-- How far a socket or a request is. -/
inductive Phase
  | accepted (userId conversationId : String)
  | creating (userId conversationId : String)
  | waiting (userId conversationId : String)
  | stored (userId conversationId : String)
  | streaming (userId conversationId : String)
  | permitted (userId conversationId : String)
  | clearing (userId : String) (messages : List ℕ)
  deriving DecidableEq, Repr

/-- The conversation that the ownership check was passed for, and by whom. -/
def Phase.holder : Phase → Option (String × String)
  | accepted u c | creating u c | waiting u c | stored u c | streaming u c | permitted u c =>
      some (u, c)
  | clearing _ _ => none

/-- The tables, and what is under way. -/
structure State where
  db : Store
  phase : ℕ → Option Phase

/-- What can happen next. -/
inductive Event
  | create (userId drawn : String)
  | connect (k : ℕ) (userId conversationId : String)
  | ensure (k : ℕ)
  | insert (k : ℕ)
  | send (k : ℕ) (text : String) (createdAt : Instant)
  | history (k : ℕ)
  | reply (k : ℕ) (text : String) (tokensUsed : Option ℕ) (createdAt now : Instant)
  | fail (k : ℕ)
  | close (k : ℕ)
  | request (k : ℕ) (userId conversationId : String)
  | list (k : ℕ)
  | clear (k : ℕ) (userId : String)
  | commitClear (k : ℕ)
  deriving DecidableEq, Repr

/-- The tables change. -/
def State.commit (s : State) (db : Store) : State := { s with db := db }

/-- The socket or request goes on. -/
def State.enter (s : State) (k : ℕ) (phase : Option Phase) : State :=
  { s with phase := Function.update s.phase k phase }

/-- `existing is not None and existing.user_id != user_id`. -/
def ownedByOther (db : Store) (userId conversationId : String) : Bool :=
  (getConversation db conversationId).any fun c => c.userId ≠ userId

/-- One step of a socket or a request. -/
def step (s : State) : Event → Option State
  | .create userId drawn =>
      (s.db.conversations.insert? (newConversation userId drawn)).map fun conversations =>
        s.commit { s.db with conversations := conversations }
  | .connect k userId conversationId =>
      match s.phase k with
      | some _ => none
      | none => if ownedByOther s.db userId conversationId then some s
          else some (s.enter k (some (.accepted userId conversationId)))
  | .ensure k =>
      match s.phase k with
      | some (.accepted u c) => some (s.enter k (some
          (if (getConversation s.db c).isNone then .creating u c else .waiting u c)))
      | _ => none
  | .insert k =>
      match s.phase k with
      | some (.creating u c) =>
          match s.db.conversations.insert? (newConversation u c) with
          | none => some (s.enter k none)
          | some conversations => some ((s.commit { s.db with
              conversations := conversations }).enter k (some (.waiting u c)))
      | _ => none
  | .send k text createdAt =>
      match s.phase k with
      | some (.waiting u c) =>
          if text = "" then none
          else some ((s.commit (storeMessage s.db ⟨u, c, .user, text, none, createdAt⟩
            (titled text) (key_titled text))).enter k (some (.stored u c)))
      | _ => none
  | .history k =>
      match s.phase k with
      | some (.stored u c) => some (s.enter k (some (.streaming u c)))
      | _ => none
  | .reply k text tokensUsed createdAt now =>
      match s.phase k with
      | some (.streaming u c) =>
          some ((s.commit (storeMessage s.db ⟨u, c, .assistant, text, tokensUsed, createdAt⟩
            (answered now) fun _ => rfl)).enter k (some (.waiting u c)))
      | _ => none
  | .fail k =>
      match s.phase k with
      | some (.stored u c) | some (.streaming u c) => some (s.enter k (some (.waiting u c)))
      | _ => none
  | .close k => some (s.enter k none)
  | .request k userId conversationId =>
      match s.phase k with
      | some _ => none
      | none => if (getConversation s.db conversationId).isNone ||
            ownedByOther s.db userId conversationId then some s
          else some (s.enter k (some (.permitted userId conversationId)))
  | .list k =>
      match s.phase k with
      | some (.permitted _ _) => some (s.enter k none)
      | _ => none
  | .clear k userId =>
      match s.phase k with
      | some _ => none
      | none => some (s.enter k (some (.clearing userId
          ((s.db.messages.rows.filter fun m => m.2.userId = userId).map (·.1)))))
  | .commitClear k =>
      match s.phase k with
      | some (.clearing u messages) => some ((s.commit
          { conversations := s.db.conversations.delete fun _ c => c.userId = u
            messages := s.db.messages.delete fun i _ => i ∈ messages }).enter k none)
      | _ => none

/-- The messages that a step hands out, and to whom: the history for the model is everything
but the last message. -/
def handedOut (s : State) : Event → Option (String × List ChatMessage)
  | .history k =>
      match s.phase k with
      | some (.stored u c) => some (u, (messagesOf s.db c).dropLast)
      | _ => none
  | .list k =>
      match s.phase k with
      | some (.permitted u c) => some (u, messagesOf s.db c)
      | _ => none
  | _ => none

/-- What a step hands out to a user is stored with that user's id. -/
def Private (s : State) (e : Event) : Prop :=
  ∀ u messages, handedOut s e = some (u, messages) → ∀ m ∈ messages, m.userId = u

/-! ## Who uses a conversation -/

/-- The user has a message in the conversation. -/
def Wrote (s : State) (u c : String) : Prop :=
  ∃ m ∈ s.db.messages.values, m.userId = u ∧ m.conversationId = c

/-- A socket or request of the user has passed the ownership check for the conversation. -/
def Holds (s : State) (u c : String) : Prop :=
  ∃ k phase, s.phase k = some phase ∧ phase.holder = some (u, c)

/-- The user has a part in the conversation. -/
def Uses (s : State) (u c : String) : Prop := Wrote s u c ∨ Holds s u c

/-- No conversation is used by two users. -/
def OneUser (s : State) : Prop := ∀ u v c, Uses s u c → Uses s v c → u = v

/-- The step passes the ownership check. -/
def Passes (s : State) (e : Event) (u c : String) : Prop :=
  ownedByOther s.db u c = false ∧ ∃ k, s.phase k = none ∧ (e = .connect k u c ∨ e = .request k u c)

/-- The ownership check passes nobody for an id that somebody else uses. -/
def Truthful (s : State) (e : Event) : Prop :=
  ∀ u c, Passes s e u c → ∀ v, Uses s v c → v = u

variable {s s' : State} {e : Event} {u v c : String}

@[simp] theorem phase_enter (s : State) (k : ℕ) (phase : Option Phase) :
    (s.enter k phase).phase = Function.update s.phase k phase := rfl

@[simp] theorem phase_commit (s : State) (db : Store) : (s.commit db).phase = s.phase := rfl

/-- Who holds a conversation when a socket goes on. -/
theorem Holds.of_enter {k : ℕ} {phase : Option Phase} (h : Holds (s.enter k phase) u c) :
    Holds s u c ∨ ∃ p, phase = some p ∧ p.holder = some (u, c) := by
  obtain ⟨k', p, hphase, hholder⟩ := h
  by_cases hk : k' = k
  · subst hk
    rw [phase_enter, Function.update_self] at hphase
    exact Or.inr ⟨p, hphase, hholder⟩
  · rw [phase_enter, Function.update_of_ne hk] at hphase
    exact Or.inl ⟨k', p, hphase, hholder⟩

/-- A socket that goes on with its conversation. -/
theorem Uses.of_enter {k : ℕ} {p₀ : Phase} {phase : Option Phase}
    (h : Uses (s.enter k phase) u c) (hphase : s.phase k = some p₀)
    (hsame : ∀ p ∈ phase, p.holder = p₀.holder) : Uses s u c := by
  rcases h with hwrote | hholds
  · exact Or.inl hwrote
  · rcases hholds.of_enter with hold | ⟨p, hp, hholder⟩
    · exact Or.inr hold
    · exact Or.inr ⟨k, p₀, hphase, hsame p hp ▸ hholder⟩

/-- A socket or request that holds no conversation. -/
theorem Uses.of_enter_none {k : ℕ} {phase : Option Phase} (h : Uses (s.enter k phase) u c)
    (hnone : ∀ p ∈ phase, p.holder = none) : Uses s u c := by
  rcases h with hwrote | hholds
  · exact Or.inl hwrote
  · rcases hholds.of_enter with hold | ⟨p, hp, hholder⟩
    · exact Or.inr hold
    · rw [hnone p hp] at hholder
      cases hholder

/-- A socket or request that has just passed the ownership check. -/
theorem Uses.of_enter_new {k : ℕ} {p : Phase} {u' c' : String}
    (h : Uses (s.enter k (some p)) u c) (hp : p.holder = some (u', c')) :
    Uses s u c ∨ u = u' ∧ c = c' := by
  rcases h with hwrote | hholds
  · exact Or.inl (Or.inl hwrote)
  · rcases hholds.of_enter with hold | ⟨p', hp', hholder⟩
    · exact Or.inl (Or.inr hold)
    · cases hp'
      cases hp.symm.trans hholder
      exact Or.inr ⟨rfl, rfl⟩

/-- Fewer messages, and nothing else that matters. -/
theorem Uses.of_commit {db : Store} (h : Uses (s.commit db) u c)
    (hdb : ∀ m ∈ db.messages.values, m ∈ s.db.messages.values) : Uses s u c := by
  rcases h with ⟨m, hm, hu⟩ | hholds
  · exact Or.inl ⟨m, hdb m hm, hu⟩
  · exact Or.inr hholds

/-- A message more, of somebody who holds its conversation. -/
theorem Uses.of_store {m : ChatMessage} {f : ChatConversation → ChatConversation}
    {hf : ∀ c, conversationKey (f c) = conversationKey c}
    (h : Uses (s.commit (storeMessage s.db m f hf)) u c)
    (hm : Holds s m.userId m.conversationId) : Uses s u c := by
  rcases h with ⟨m', hm', rfl, rfl⟩ | hholds
  · obtain ⟨i, hi⟩ := Table.mem_values.mp hm'
    rcases Table.mem_rows_insert.mp hi with hold | hnew
    · exact Or.inl ⟨m', Table.mem_values.mpr ⟨i, hold⟩, rfl, rfl⟩
    · obtain ⟨-, rfl⟩ := Prod.mk.inj hnew
      exact Or.inr hm
  · exact Or.inr hholds

/-- **One step.**  Who uses a conversation afterwards used it before, or has just passed the
ownership check. -/
theorem uses_of_step (h : step s e = some s') (huses : Uses s' u c) :
    Uses s u c ∨ Passes s e u c := by
  cases e with
  | create userId drawn =>
      obtain ⟨conversations, -, rfl⟩ := Option.map_eq_some_iff.mp h
      exact Or.inl (huses.of_commit fun m hm => hm)
  | connect k userId conversationId =>
      rw [step] at h
      split at h
      · cases h
      · rename_i hphase
        split_ifs at h with howned
        · cases h
          exact Or.inl huses
        · cases h
          refine (huses.of_enter_new rfl).imp_right ?_
          rintro ⟨rfl, rfl⟩
          exact ⟨Bool.eq_false_of_not_eq_true howned, k, hphase, Or.inl rfl⟩
  | ensure k =>
      rw [step] at h
      split at h
      · rename_i hphase
        cases h
        refine Or.inl (huses.of_enter hphase ?_)
        rintro p ⟨rfl⟩
        split <;> rfl
      · cases h
  | insert k =>
      rw [step] at h
      split at h
      · rename_i hphase
        split at h
        · cases h
          exact Or.inl (huses.of_enter_none nofun)
        · cases h
          refine Or.inl (Uses.of_commit (huses.of_enter (k := k) hphase ?_) fun m hm => hm)
          rintro p ⟨rfl⟩
          rfl
      · cases h
  | send k text createdAt =>
      rw [step] at h
      split at h
      · rename_i hphase
        split_ifs at h
        cases h
        refine Or.inl (Uses.of_store (huses.of_enter (k := k) hphase ?_) ⟨k, _, hphase, rfl⟩)
        rintro p ⟨rfl⟩
        rfl
      · cases h
  | history k =>
      rw [step] at h
      split at h
      · rename_i hphase
        cases h
        refine Or.inl (huses.of_enter hphase ?_)
        rintro p ⟨rfl⟩
        rfl
      · cases h
  | reply k text tokensUsed createdAt now =>
      rw [step] at h
      split at h
      · rename_i hphase
        cases h
        refine Or.inl (Uses.of_store (huses.of_enter (k := k) hphase ?_) ⟨k, _, hphase, rfl⟩)
        rintro p ⟨rfl⟩
        rfl
      · cases h
  | fail k =>
      rw [step] at h
      split at h
      · rename_i hphase
        cases h
        refine Or.inl (huses.of_enter hphase ?_)
        rintro p ⟨rfl⟩
        rfl
      · rename_i hphase
        cases h
        refine Or.inl (huses.of_enter hphase ?_)
        rintro p ⟨rfl⟩
        rfl
      · cases h
  | close k =>
      cases h
      exact Or.inl (huses.of_enter_none nofun)
  | request k userId conversationId =>
      rw [step] at h
      split at h
      · cases h
      · rename_i hphase
        split_ifs at h with howned
        · cases h
          exact Or.inl huses
        · cases h
          rw [Bool.or_eq_true, not_or] at howned
          refine (huses.of_enter_new rfl).imp_right ?_
          rintro ⟨rfl, rfl⟩
          exact ⟨Bool.eq_false_of_not_eq_true howned.2, k, hphase, Or.inr rfl⟩
  | list k =>
      rw [step] at h
      split at h
      · cases h
        exact Or.inl (huses.of_enter_none nofun)
      · cases h
  | clear k userId =>
      rw [step] at h
      split at h
      · cases h
      · cases h
        refine Or.inl (huses.of_enter_none ?_)
        rintro p ⟨rfl⟩
        rfl
  | commitClear k =>
      rw [step] at h
      split at h
      · cases h
        refine Or.inl (Uses.of_commit (huses.of_enter_none nofun) fun m hm => ?_)
        obtain ⟨i, hi⟩ := Table.mem_values.mp hm
        exact Table.mem_values.mpr ⟨i, (Table.mem_rows_delete.mp hi).1⟩
      · cases h

/-- A truthful check keeps every conversation to one user. -/
theorem oneUser_of_step (h : step s e = some s') (hone : OneUser s) (htrue : Truthful s e) :
    OneUser s' := by
  intro u v c hu hv
  rcases uses_of_step h hu with hu | hu
  · rcases uses_of_step h hv with hv | hv
    · exact hone u v c hu hv
    · exact htrue v c hv u hu
  · rcases uses_of_step h hv with hv | hv
    · exact (htrue u c hu v hv).symm
    · obtain ⟨-, k, -, rfl | rfl⟩ := hu
      all_goals
        obtain ⟨-, k', -, heq | heq⟩ := hv
        all_goals cases heq
        all_goals rfl

/-- The messages that are selected are those of the conversation. -/
theorem mem_messagesOf {db : Store} {m : ChatMessage} (hm : m ∈ messagesOf db c) :
    m ∈ db.messages.values ∧ m.conversationId = c := by
  obtain ⟨⟨i, m⟩, hrow, rfl⟩ := List.mem_map.mp hm
  rw [List.mem_insertionSort, List.mem_filter, decide_eq_true_eq] at hrow
  exact ⟨Table.mem_values.mpr ⟨i, hrow.1⟩, hrow.2⟩

/-- What is handed out is from a conversation that its reader holds. -/
theorem handedOut_eq_some {messages : List ChatMessage}
    (h : handedOut s e = some (u, messages)) :
    ∃ c, Holds s u c ∧ ∀ m ∈ messages, m ∈ messagesOf s.db c := by
  cases e with
  | history k =>
      rw [handedOut] at h
      split at h
      · rename_i u' c' hphase
        cases h
        exact ⟨c', ⟨k, _, hphase, rfl⟩, fun m hm => List.mem_of_mem_dropLast hm⟩
      · cases h
  | list k =>
      rw [handedOut] at h
      split at h
      · rename_i u' c' hphase
        cases h
        exact ⟨c', ⟨k, _, hphase, rfl⟩, fun m hm => hm⟩
      · cases h
  | _ => cases h

/-- With one user to each conversation, everybody gets their own messages. -/
theorem private_of_oneUser (hone : OneUser s) (e : Event) : Private s e := by
  intro u messages hout m hm
  obtain ⟨c, hholds, hmem⟩ := handedOut_eq_some hout
  obtain ⟨hstored, hc⟩ := mem_messagesOf (hmem m hm)
  exact hone m.userId u c (Or.inl ⟨m, hstored, rfl, hc⟩) (Or.inr hholds)

/-! ## Runs -/

/-- Nothing is stored and nobody is connected. -/
def start : State := ⟨⟨.empty, .empty⟩, fun _ => none⟩

/-- Both sockets are accepted before the conversation exists; one creates it and the other
finds it there. -/
def bothConnected : List Event :=
  [.connect 0 "ada" "c", .connect 1 "bob" "c", .ensure 0, .insert 0, .ensure 1,
    .send 0 "our target price" 1, .send 1 "hello" 2, .history 1]

/-- Alone in a conversation. -/
def alone : List Event :=
  [.connect 0 "ada" "c", .ensure 0, .insert 0, .send 0 "who is late?" 1, .history 0,
    .reply 0 "nobody" (some 12) 2 2, .send 0 "thanks" 3, .history 0]

/-- Only a connection or a request can break the condition. -/
theorem truthful_of_not_passes (h : ∀ u c, ¬Passes s e u c) : Truthful s e :=
  fun u c hpasses => absurd hpasses (h u c)

theorem oneUser_start : OneUser start := by
  rintro u v c (⟨m, hm, -⟩ | ⟨k, p, hp, -⟩)
  · cases hm
  · cases hp

end ProcureSignal.Chat
