/-
# The message counter of a conversation

`_persist_user_message` and `_persist_assistant_message` of `api/routers/chat.py`.  A question is
stored without being counted.  The reply adds two to the count that its session has read, and other
sockets may store their replies between this read and the commit.

* `reply_of_current`, `simulates` : a reply whose read is still the row is the one of `Chat.step`;
* `effect_of_step` : **what a step does to the counter of a conversation**, to its messages and to
  the sockets that are in an exchange;
* `drifted_iff` : the counter drifts with the exchanges that break off and the replies that are
  stored at the same time, and never recovers;
* `messageCount_iff` : **when the counter of a conversation at rest is the number of its messages**.
-/
import ProcureSignal.Chat.Conversations
import ProcureSignal.Library.ReadModifyWrite

namespace ProcureSignal.Chat.Counting

/-! ## Replies in two steps -/

/-- The row of a conversation, with its key. -/
def conversationRow (db : Store) (conversationId : String) : Option (ℕ × ChatConversation) :=
  db.conversations.rows.find? fun r => r.2.conversationId = conversationId

/-- The tables, what is under way, and the rows that the sessions of
`_persist_assistant_message` have read. -/
structure State extends Chat.State where
  read : ℕ → Option (Option (ℕ × ChatConversation))

/-- What can happen next. -/
inductive Event
  | socket (e : Chat.Event)
  | read (k : ℕ)
  | reply (k : ℕ) (text : String) (tokensUsed : Option ℕ) (createdAt now : Instant)
  deriving DecidableEq, Repr

/-- `(conversation.message_count or 0) + 2`, of the row that was read. -/
def counted (read : ChatConversation) (now : Instant) (c : ChatConversation) : ChatConversation :=
  { c with messageCount := read.messageCount + 2, lastMessageAt := some now }

/-- The commit of a reply: the message, and the row that was read if there was one. -/
def saveReply (db : Store) (m : ChatMessage) (read : Option (ℕ × ChatConversation))
    (now : Instant) : Store where
  conversations :=
    match read with
    | none => db.conversations
    | some (i, row) => db.conversations.update (fun j _ => j = i) (counted row now)
        fun _ hk _ => List.mem_singleton.mp hk ▸ rfl
  messages := db.messages.insert m

/-- The session of a reply ends with its exchange. -/
def readAfter (read : ℕ → Option (Option (ℕ × ChatConversation))) :
    Chat.Event → ℕ → Option (Option (ℕ × ChatConversation))
  | .fail k | .close k => Function.update read k none
  | _ => read

/-- One step of a socket or a request.  A row that was read and is gone at the commit is an error,
and nothing is stored. -/
def step (s : State) : Event → Option State
  | .socket (.reply ..) => none
  | .socket e => (Chat.step s.toState e).map fun t => ⟨t, readAfter s.read e⟩
  | .read k =>
      match s.phase k, s.read k with
      | some (.streaming _ c), none =>
          some { s with read := Function.update s.read k (some (conversationRow s.db c)) }
      | _, _ => none
  | .reply k text tokensUsed createdAt now =>
      match s.phase k, s.read k with
      | some (.streaming u c), some read =>
          some ⟨(if read.all fun r => (s.db.conversations.find? r.1).isSome then
              s.commit (saveReply s.db ⟨u, c, .assistant, text, tokensUsed, createdAt⟩ read now)
            else s.toState).enter k (some (.waiting u c)), Function.update s.read k none⟩
      | _, _ => none

/-! ## What is counted -/

/-- The conversation whose exchange is in progress. -/
def exchange : Phase → Option String
  | .stored _ c | .streaming _ c => some c
  | _ => none

/-- The sockets in an exchange of the conversation. -/
def exchanging (s : Chat.State) (c : String) : Set ℕ := {k | (s.phase k).bind exchange = some c}

/-- The messages of the conversation in a role. -/
def messagesIn (db : Store) (c : String) (role : MessageRole) : ℕ :=
  db.messages.values.countP fun m => m.conversationId = c ∧ m.role = role

/-- `message_count` of the conversation. -/
def messageCount (db : Store) (c : String) : ℕ :=
  ((conversationRow db c).map (·.2.messageCount)).getD 0

/-- The counter of the conversation, with two messages to a reply. -/
def counter (s : State) (c : String) : Counter ℕ where
  value := messageCount s.db c
  total := 2 * messagesIn s.db c .assistant
  read k :=
    if (s.phase k).bind exchange = some c then
      (s.read k).bind fun row => row.map (·.2.messageCount)
    else none

/-- An exchange of the conversation fails, or its client disconnects. -/
def BreaksOff (c : String) (s : State) (e : Event) : Prop :=
  ∃ k ∈ exchanging s.toState c, e = .socket (.fail k) ∨ e = .socket (.close k)

/-- A reply is stored while another reply to the conversation is being stored. -/
def Overlaps (c : String) (s : State) (e : Event) : Prop :=
  ∃ k ∈ exchanging s.toState c,
    (∃ text tokensUsed createdAt now, e = .reply k text tokensUsed createdAt now) ∧
    ∃ k' ∈ exchanging s.toState c, k' ≠ k ∧ (s.read k').isSome

/-- Messages that are not counted. -/
def Loses (c : String) (s : State) (e : Event) : Prop := BreaksOff c s e ∨ Overlaps c s e

/-- No history that is deleted has a part in the conversation. -/
def Spares (c : String) (s : State) (e : Event) : Prop :=
  ∀ k u messages, e = .socket (.commitClear k) → s.phase k = some (.clearing u messages) →
    (∀ conversation ∈ s.db.conversations.values, conversation.conversationId = c →
      conversation.userId ≠ u) ∧
    ∀ r ∈ s.db.messages.rows, r.2.conversationId = c → r.1 ∉ messages

variable {s s' : State} {e : Event} {c : String}

/-! ## What a step does -/

/-- What happens to the tables outside of an exchange. -/
inductive DbMove (db : Store) : Store → Prop
  | same : DbMove db db
  | insert {userId conversationId : String}
      {conversations : UniqueTable ChatConversation String [conversationKey]} :
      db.conversations.insert? (newConversation userId conversationId) = some conversations →
      DbMove db { db with conversations := conversations }

/-- The tables after a deletion. -/
def cleared (db : Store) (userId : String) (messages : List ℕ) : Store where
  conversations := db.conversations.delete fun _ c => c.userId = userId
  messages := db.messages.delete fun i _ => i ∈ messages

/-- The conversation of a socket that takes questions. -/
def serves : Phase → Option String
  | .waiting _ c | .stored _ c | .streaming _ c => some c
  | _ => none

/-- The event ends the exchange of a socket without a reply. -/
def Ends (e : Event) (k : ℕ) : Prop := e = .socket (.fail k) ∨ e = .socket (.close k)

/-- The event stores the reply of a socket. -/
def Replies (e : Event) (k : ℕ) : Prop :=
  ∃ text tokensUsed createdAt now, e = .reply k text tokensUsed createdAt now

@[simp] theorem ends_socket {e : Chat.Event} {k : ℕ} :
    Ends (.socket e) k ↔ e = .fail k ∨ e = .close k := by
  simp [Ends]

@[simp] theorem not_ends_read {j k : ℕ} : ¬ Ends (.read j) k := by
  rintro (heq | heq) <;> cases heq

@[simp] theorem not_ends_reply {j k : ℕ} {text : String} {tokensUsed : Option ℕ}
    {createdAt now : Instant} : ¬ Ends (.reply j text tokensUsed createdAt now) k := by
  rintro (heq | heq) <;> cases heq

@[simp] theorem not_replies_socket {e : Chat.Event} {k : ℕ} : ¬ Replies (.socket e) k := by
  rintro ⟨_, _, _, _, heq⟩
  cases heq

@[simp] theorem not_replies_read {j k : ℕ} : ¬ Replies (.read j) k := by
  rintro ⟨_, _, _, _, heq⟩
  cases heq

@[simp] theorem replies_reply {j k : ℕ} {text : String} {tokensUsed : Option ℕ}
    {createdAt now : Instant} : Replies (.reply j text tokensUsed createdAt now) k ↔ j = k := by
  constructor
  · rintro ⟨_, _, _, _, heq⟩
    cases heq
    rfl
  · rintro rfl
    exact ⟨_, _, _, _, rfl⟩

/-- The steps of a conversation. -/
inductive Move (s : State) (e : Event) : State → Prop
  /-- no socket goes on -/
  | still {db : Store} (hdb : DbMove s.db db) (hends : ∀ k, ¬ Ends e k)
      (hreplies : ∀ k, ¬ Replies e k) : Move s e ⟨s.commit db, s.read⟩
  /-- a socket outside of an exchange goes on -/
  | idle {db : Store} (hdb : DbMove s.db db) {k : ℕ} {p : Option Phase}
      {read : ℕ → Option (Option (ℕ × ChatConversation))}
      (hbefore : (s.phase k).bind exchange = none) (hafter : p.bind exchange = none)
      (hserves : ∀ c ∈ p.bind serves, (s.phase k).bind serves = some c ∨
        (conversationRow db c).isSome)
      (hread : read = s.read ∨ read = Function.update s.read k none)
      (hends : ∀ j, Ends e j → j = k) (hreplies : ∀ j, ¬ Replies e j) :
      Move s e ⟨(s.commit db).enter k p, read⟩
  | clear {k : ℕ} {u : String} {messages : List ℕ}
      (hphase : s.phase k = some (.clearing u messages)) (he : e = .socket (.commitClear k)) :
      Move s e ⟨(s.commit (cleared s.db u messages)).enter k none, s.read⟩
  | ask {k : ℕ} {u c text : String} {createdAt : Instant} (hphase : s.phase k = some (.waiting u c))
      (he : e = .socket (.send k text createdAt)) :
      Move s e ⟨(s.commit (storeMessage s.db ⟨u, c, .user, text, none, createdAt⟩ (titled text)
        (key_titled text))).enter k (some (.stored u c)), s.read⟩
  | stream {k : ℕ} {u c : String} (hphase : s.phase k = some (.stored u c))
      (he : e = .socket (.history k)) : Move s e ⟨s.enter k (some (.streaming u c)), s.read⟩
  | read {k : ℕ} {u c : String} (hphase : s.phase k = some (.streaming u c))
      (hnone : s.read k = none) (he : e = .read k) :
      Move s e { s with read := Function.update s.read k (some (conversationRow s.db c)) }
  | reply {k : ℕ} {u c text : String} {tokensUsed : Option ℕ} {createdAt now : Instant}
      {read : Option (ℕ × ChatConversation)} (hphase : s.phase k = some (.streaming u c))
      (hread : s.read k = some read) (he : e = .reply k text tokensUsed createdAt now) :
      Move s e ⟨(if read.all fun r => (s.db.conversations.find? r.1).isSome then
          s.commit (saveReply s.db ⟨u, c, .assistant, text, tokensUsed, createdAt⟩ read now)
        else s.toState).enter k (some (.waiting u c)), Function.update s.read k none⟩
  | leave {k : ℕ} {c : String} {p : Option Phase} (hphase : (s.phase k).bind exchange = some c)
      (he : Ends e k) (hafter : p.bind exchange = none) (hserves : ∀ d ∈ p.bind serves, d = c) :
      Move s e ⟨s.enter k p, Function.update s.read k none⟩

/-- The conversation that is selected is the one of its row. -/
theorem getConversation_eq (db : Store) (c : String) :
    getConversation db c = (conversationRow db c).map (·.2) := by
  rw [getConversation, Table.values, List.find?_map]
  rfl

theorem conversationRow_eq_some {db : Store} {r : ℕ × ChatConversation}
    (h : conversationRow db c = some r) :
    r ∈ db.conversations.rows ∧ r.2.conversationId = c := by
  have hc := List.find?_some h
  exact ⟨List.mem_of_find?_eq_some h, of_decide_eq_true hc⟩

/-- An inserted conversation is found. -/
theorem conversationRow_insert {db : Store} {userId : String}
    {conversations : UniqueTable ChatConversation String [conversationKey]}
    (h : db.conversations.insert? (newConversation userId c) = some conversations) :
    (conversationRow { db with conversations := conversations } c).isSome := by
  obtain ⟨hfree, rfl⟩ := UniqueTable.insert?_eq_some_iff.mp h
  rw [conversationRow, List.find?_isSome]
  exact ⟨_, Table.mem_rows_insert.mpr (Or.inr rfl), decide_eq_true rfl⟩

/-- An event of a socket or a request is one of `Chat.step`, but no reply. -/
theorem socket_of_step {e : Chat.Event} (h : step s (.socket e) = some s') :
    (∀ k text tokensUsed createdAt now, e ≠ .reply k text tokensUsed createdAt now) ∧
      ∃ t, Chat.step s.toState e = some t ∧ s' = ⟨t, readAfter s.read e⟩ := by
  have hmap : (∀ k text tokensUsed createdAt now, e ≠ .reply k text tokensUsed createdAt now) ∧
      (Chat.step s.toState e).map (State.mk · (readAfter s.read e)) = some s' := by
    cases e with
    | reply => cases h
    | _ => exact ⟨nofun, h⟩
  obtain ⟨t, ht, rfl⟩ := Option.map_eq_some_iff.mp hmap.2
  exact ⟨hmap.1, t, ht, rfl⟩

/-- **Every step** is one of these. -/
theorem move_of_step (h : step s e = some s') : Move s e s' := by
  cases e with
  | socket e =>
      obtain ⟨hreply, t, ht, rfl⟩ := socket_of_step h
      cases e with
      | create userId drawn =>
          obtain ⟨conversations, hinsert, rfl⟩ := Option.map_eq_some_iff.mp ht
          exact .still (.insert hinsert) (by simp) (by simp)
      | connect k userId conversationId =>
          rw [Chat.step] at ht
          split at ht
          · cases ht
          · rename_i hphase
            split_ifs at ht
            · cases ht
              exact .still .same (by simp) (by simp)
            · cases ht
              exact .idle .same (by rw [hphase]; rfl) rfl (by simp [serves]) (Or.inl rfl)
                (by simp) (by simp)
      | ensure k =>
          rw [Chat.step] at ht
          split at ht
          · rename_i u c hphase
            cases ht
            refine .idle .same (by rw [hphase]; rfl) ?_ ?_ (Or.inl rfl)
              (by simp) (by simp)
            · split <;> rfl
            · intro d hd
              split_ifs at hd with hmissing
              · cases hd
              · cases hd
                rw [getConversation_eq, Option.isNone_map, ← Option.not_isSome,
                  Bool.not_eq_true', Bool.not_eq_false] at hmissing
                exact Or.inr hmissing
          · cases ht
      | insert k =>
          rw [Chat.step] at ht
          split at ht
          · rename_i u c hphase
            have hnone : (s.phase k).bind exchange = none := by rw [hphase]; rfl
            split at ht
            · cases ht
              exact .idle .same hnone rfl (by simp) (Or.inl rfl)
                (by simp) (by simp)
            · rename_i conversations hinsert
              cases ht
              refine .idle (.insert hinsert) hnone rfl ?_ (Or.inl rfl)
                (by simp) (by simp)
              rintro d ⟨rfl⟩
              exact Or.inr (conversationRow_insert hinsert)
          · cases ht
      | send k text createdAt =>
          rw [Chat.step] at ht
          split at ht
          · rename_i hphase
            split_ifs at ht
            cases ht
            exact .ask hphase rfl
          · cases ht
      | history k =>
          rw [Chat.step] at ht
          split at ht
          · rename_i hphase
            cases ht
            exact .stream hphase rfl
          · cases ht
      | reply k text tokensUsed createdAt now => exact (hreply _ _ _ _ _ rfl).elim
      | fail k =>
          rw [Chat.step] at ht
          split at ht
          · rename_i hphase
            cases ht
            exact .leave (by rw [hphase]; rfl) (Or.inl rfl) rfl (by simp [serves])
          · rename_i hphase
            cases ht
            exact .leave (by rw [hphase]; rfl) (Or.inl rfl) rfl (by simp [serves])
          · cases ht
      | close k =>
          cases ht
          cases hexchange : (s.phase k).bind exchange with
          | some c => exact .leave hexchange (Or.inr rfl) rfl (by simp)
          | none =>
              exact .idle .same hexchange rfl (by simp) (Or.inr rfl) (by simp [eq_comm]) (by simp)
      | request k userId conversationId =>
          rw [Chat.step] at ht
          split at ht
          · cases ht
          · rename_i hphase
            split_ifs at ht
            · cases ht
              exact .still .same (by simp) (by simp)
            · cases ht
              exact .idle .same (by rw [hphase]; rfl) rfl (by simp [serves]) (Or.inl rfl)
                (by simp) (by simp)
      | list k =>
          rw [Chat.step] at ht
          split at ht
          · rename_i hphase
            cases ht
            exact .idle .same (by rw [hphase]; rfl) rfl (by simp) (Or.inl rfl)
              (by simp) (by simp)
          · cases ht
      | clear k userId =>
          rw [Chat.step] at ht
          split at ht
          · cases ht
          · rename_i hphase
            cases ht
            exact .idle .same (by rw [hphase]; rfl) rfl (by simp [serves]) (Or.inl rfl)
              (by simp) (by simp)
      | commitClear k =>
          rw [Chat.step] at ht
          split at ht
          · rename_i u messages hphase
            cases ht
            exact .clear hphase rfl
          · cases ht
  | read k =>
      rw [step] at h
      split at h
      · rename_i hphase hnone
        cases h
        exact .read hphase hnone rfl
      · cases h
  | reply k text tokensUsed createdAt now =>
      rw [step] at h
      split at h
      · rename_i hphase hread
        cases h
        exact .reply hphase hread rfl
      · cases h

/-! ## Tables -/

/-- The row of a conversation after a rewrite. -/
theorem conversationRow_modify {db : Store} {f : ℕ → ChatConversation → ChatConversation}
    (hf : ∀ k ∈ [conversationKey], ∀ i a, k (f i a) = k a) (messages : Table ChatMessage)
    (c : String) :
    conversationRow ⟨db.conversations.modify f hf, messages⟩ c =
      (conversationRow db c).map fun r => (r.1, f r.1 r.2) := by
  show (db.conversations.rows.map fun r => (r.1, f r.1 r.2)).find? _ = _
  rw [List.find?_map]
  refine congrArg (Option.map _) (List.find?_congr fun r _ => ?_)
  have hkey : conversationKey (f r.1 r.2) = conversationKey r.2 := hf _ List.mem_cons_self ..
  rw [conversationKey, conversationKey, Option.some_inj] at hkey
  show decide ((f r.1 r.2).conversationId = c) = decide (r.2.conversationId = c)
  rw [hkey]

/-- The messages of a conversation with one more. -/
theorem messagesIn_insert (db : Store)
    (conversations : UniqueTable ChatConversation String [conversationKey]) (m : ChatMessage)
    (c : String) (role : MessageRole) :
    messagesIn ⟨conversations, db.messages.insert m⟩ c role =
      messagesIn db c role + if m.conversationId = c ∧ m.role = role then 1 else 0 := by
  show ((db.messages.insert m).values.countP _) = _
  rw [Table.values_insert, List.countP_append, List.countP_singleton]
  simp only [decide_eq_true_eq]
  rfl

/-- The rows keep their keys and their conversations. -/
structure Keyed (db db' : Store) : Prop where
  nextId_le : db.conversations.nextId ≤ db'.conversations.nextId
  row : ∀ i conversation, (i, conversation) ∈ db'.conversations.rows →
    i < db.conversations.nextId → ∃ before, (i, before) ∈ db.conversations.rows ∧
      before.conversationId = conversation.conversationId

theorem Keyed.refl (db : Store) : Keyed db db :=
  ⟨le_rfl, fun _ conversation h _ => ⟨conversation, h, rfl⟩⟩

theorem Keyed.modify {db : Store} {f : ℕ → ChatConversation → ChatConversation}
    (hf : ∀ k ∈ [conversationKey], ∀ i a, k (f i a) = k a) (messages : Table ChatMessage) :
    Keyed db ⟨db.conversations.modify f hf, messages⟩ where
  nextId_le := le_rfl
  row i conversation h _ := by
    obtain ⟨before, hbefore, heq⟩ := Table.mem_rows_modify.mp h
    refine ⟨before, hbefore, ?_⟩
    have hkey : conversationKey (f i before) = conversationKey before :=
      hf _ List.mem_cons_self ..
    rw [show conversation = f i before from heq]
    exact (Option.some_inj.mp hkey).symm

theorem DbMove.keyed {db db' : Store} (h : DbMove db db') : Keyed db db' := by
  cases h with
  | same => exact .refl db
  | insert hinsert =>
      obtain ⟨hfree, rfl⟩ := UniqueTable.insert?_eq_some_iff.mp hinsert
      refine ⟨Nat.le_succ _, fun i conversation h hlt => ?_⟩
      rcases Table.mem_rows_insert.mp h with hold | hnew
      · exact ⟨conversation, hold, rfl⟩
      · obtain ⟨rfl, -⟩ := Prod.mk.inj hnew
        exact absurd hlt (lt_irrefl _)

theorem Move.keyed (h : Move s e s') : Keyed s.db s'.db := by
  cases h with
  | still hdb => exact hdb.keyed
  | idle hdb => exact hdb.keyed
  | clear =>
      refine ⟨le_rfl, fun i conversation h _ => ⟨conversation, ?_, rfl⟩⟩
      exact (Table.mem_rows_delete.mp h).1
  | ask => exact .modify _ _
  | stream => exact .refl _
  | read => exact .refl _
  | @reply k u c text tokensUsed createdAt now read =>
      show Keyed s.db (State.db (if _ then _ else _))
      split
      · cases read with
        | none => exact ⟨le_rfl, fun _ conversation h _ => ⟨conversation, h, rfl⟩⟩
        | some row => exact .modify _ _
      · exact .refl _
  | leave => exact .refl _

/-- The row of the conversation stays, with its counter. -/
structure Kept (c : String) (db db' : Store) : Prop where
  row : ∀ i conversation, conversationRow db c = some (i, conversation) →
    ∃ after, conversationRow db' c = some (i, after)
  messageCount_eq : messageCount db' c = messageCount db c

theorem Kept.of_eq {db db' : Store} (h : conversationRow db' c = conversationRow db c) :
    Kept c db db' where
  row i conversation hrow := ⟨conversation, h.trans hrow⟩
  messageCount_eq := by rw [messageCount, messageCount, h]

/-- A rewrite that keeps the counter of the conversation. -/
theorem Kept.modify {db : Store} {f : ℕ → ChatConversation → ChatConversation}
    (hf : ∀ k ∈ [conversationKey], ∀ i a, k (f i a) = k a) (messages : Table ChatMessage)
    (hcount : ∀ i conversation, conversationRow db c = some (i, conversation) →
      (f i conversation).messageCount = conversation.messageCount) :
    Kept c db ⟨db.conversations.modify f hf, messages⟩ where
  row i conversation h := by
    rw [conversationRow_modify, h]
    exact ⟨_, rfl⟩
  messageCount_eq := by
    rw [messageCount, messageCount, conversationRow_modify]
    cases hrow : conversationRow db c with
    | none => rfl
    | some r => exact hcount r.1 r.2 hrow

theorem DbMove.kept {db db' : Store} (h : DbMove db db') (c : String) : Kept c db db' := by
  cases h with
  | same => exact .of_eq rfl
  | @insert userId conversationId _ hinsert =>
      obtain ⟨hfree, rfl⟩ := UniqueTable.insert?_eq_some_iff.mp hinsert
      have hrow : conversationRow { db with
          conversations := db.conversations.insertFree _ hfree } c =
          (conversationRow db c).or
            ([(db.conversations.nextId, newConversation userId conversationId)].find? fun r =>
              r.2.conversationId = c) := List.find?_append
      refine ⟨fun i conversation h => ⟨conversation, ?_⟩, ?_⟩
      · rw [hrow, h, Option.some_or]
      · rw [messageCount, messageCount, hrow]
        cases conversationRow db c with
        | some r => rfl
        | none =>
            -- a new conversation has no messages, as one that is not there
            rw [Option.none_or, List.find?_singleton]
            split <;> rfl

theorem DbMove.messages_eq {db db' : Store} (h : DbMove db db') : db'.messages = db.messages := by
  cases h <;> rfl

section Cleared

variable {db : Store} {u : String} {messages : List ℕ}

/-- A deletion of somebody else's history leaves the conversation. -/
theorem kept_cleared (h : ∀ conversation ∈ db.conversations.values,
    conversation.conversationId = c → conversation.userId ≠ u) :
    Kept c db (cleared db u messages) := by
  refine .of_eq ?_
  show (db.conversations.rows.filter _).find? _ = _
  rw [List.find?_filter]
  refine List.find?_congr fun r hr => ?_
  have hmem : r.2 ∈ db.conversations.values := List.mem_map_of_mem hr
  by_cases hc : r.2.conversationId = c
  · simp [hc, h r.2 hmem hc]
  · simp [hc]

/-- It leaves the messages. -/
theorem messagesIn_cleared
    (h : ∀ r ∈ db.messages.rows, r.2.conversationId = c → r.1 ∉ messages) (role : MessageRole) :
    messagesIn (cleared db u messages) c role = messagesIn db c role := by
  show (((db.messages.rows.filter _).map (·.2)).countP _) = (db.messages.rows.map (·.2)).countP _
  rw [List.countP_map, List.countP_map, List.countP_filter]
  refine List.countP_congr fun r hr => ?_
  by_cases hc : r.2.conversationId = c
  · simp [hc, h r hr hc]
  · simp [hc]

end Cleared

/-- A question leaves every counter. -/
theorem kept_ask (db : Store) (m : ChatMessage) (text c : String) :
    Kept c db (storeMessage db m (titled text) (key_titled text)) := by
  refine .modify _ _ fun i conversation _ => ?_
  split
  · unfold titled
    split <;> rfl
  · rfl

/-- A reply leaves the counter of a conversation whose row was not read. -/
theorem kept_saveReply {db : Store} {m : ChatMessage} {read : Option (ℕ × ChatConversation)}
    {now : Instant}
    (h : ∀ r ∈ read, ∀ conversation, conversationRow db c ≠ some (r.1, conversation)) :
    Kept c db (saveReply db m read now) := by
  cases read with
  | none => exact .of_eq rfl
  | some row =>
      refine .modify _ _ fun i conversation hrow => ?_
      rw [if_neg]
      intro hi
      exact h row rfl conversation (of_decide_eq_true hi ▸ hrow)

/-- A reply adds two to what was read. -/
theorem conversationRow_saveReply {db : Store} {m : ChatMessage} {i : ℕ}
    {row conversation : ChatConversation} {now : Instant}
    (h : conversationRow db c = some (i, conversation)) :
    conversationRow (saveReply db m (some (i, row)) now) c =
      some (i, counted row now conversation) := by
  refine (conversationRow_modify _ _ c).trans ?_
  rw [h, Option.map_some, if_pos (decide_eq_true rfl)]

/-! ## Replies in one step -/

/-- A reply to what is still the row. -/
theorem saveReply_current (db : Store) (m : ChatMessage) (now : Instant) :
    saveReply db m (conversationRow db m.conversationId) now =
      storeMessage db m (answered now) fun _ => rfl := by
  refine congrArg (Store.mk · (db.messages.insert m)) ?_
  cases hrow : conversationRow db m.conversationId with
  | none =>
      have hnone : ∀ r ∈ db.conversations.rows, r.2.conversationId ≠ m.conversationId :=
        fun r hr hc => List.find?_eq_none.mp hrow r hr (decide_eq_true hc)
      refine (UniqueTable.modify_eq_self _ fun r hr => ?_).symm
      exact if_neg fun h => hnone r hr (of_decide_eq_true h)
  | some current =>
      obtain ⟨i, row⟩ := current
      obtain ⟨hmem, hc⟩ := conversationRow_eq_some hrow
      refine UniqueTable.modify_congr _ _ fun r hr => ?_
      by_cases hi : r.1 = i
      · obtain ⟨j, a⟩ := r
        obtain rfl : j = i := hi
        obtain rfl := Table.eq_of_mem hr hmem
        rw [if_pos (decide_eq_true rfl), if_pos (decide_eq_true hc)]
        rfl
      · -- the key of a conversation is unique
        have hne : r.2.conversationId ≠ m.conversationId := by
          intro heq
          have hsame := UniqueTable.eq_of_unique List.mem_cons_self hr hmem
            (congrArg some heq) (congrArg some hc)
          exact hi (congrArg Prod.fst hsame)
        rw [if_neg fun h => hi (of_decide_eq_true h), if_neg fun h => hne (of_decide_eq_true h)]

/-- **A reply whose read is still the row** is the reply of `Chat.step`. -/
theorem reply_of_current {k : ℕ} {u text : String} {tokensUsed : Option ℕ}
    {createdAt now : Instant} (hphase : s.phase k = some (.streaming u c))
    (hread : s.read k = some (conversationRow s.db c)) :
    step s (.reply k text tokensUsed createdAt now) =
      (Chat.step s.toState (.reply k text tokensUsed createdAt now)).map fun t =>
        ⟨t, Function.update s.read k none⟩ := by
  have hall : (conversationRow s.db c).all
      (fun r => (s.db.conversations.find? r.1).isSome) = true := by
    cases hrow : conversationRow s.db c with
    | none => rfl
    | some r =>
        exact Option.isSome_of_mem (Table.find?_eq_some_iff.mpr (conversationRow_eq_some hrow).1)
  have hsave := saveReply_current s.db ⟨u, c, .assistant, text, tokensUsed, createdAt⟩ now
  rw [step, hphase, hread, Chat.step, hphase]
  dsimp only
  rw [if_pos hall, hsave]
  rfl

/-- **Refinement.**  A step whose reply, if there is one, has read what is still the row is one of
`Chat.step`, or only reads. -/
theorem simulates (h : step s e = some s')
    (hcurrent : ∀ k u c, Replies e k → s.phase k = some (.streaming u c) →
      ∀ read, s.read k = some read → read = conversationRow s.db c) :
    s'.toState = s.toState ∨ ∃ e', Chat.step s.toState e' = some s'.toState := by
  cases e with
  | socket e =>
      obtain ⟨-, t, ht, rfl⟩ := socket_of_step h
      exact Or.inr ⟨e, ht⟩
  | read k =>
      rw [step] at h
      split at h
      · cases h
        exact Or.inl rfl
      · cases h
  | reply k text tokensUsed createdAt now =>
      have hstep := h
      rw [step] at h
      split at h
      · rename_i u c read hphase hread
        have hrow := hcurrent k u c ⟨_, _, _, _, rfl⟩ hphase read hread
        rw [reply_of_current hphase (hrow ▸ hread)] at hstep
        obtain ⟨t, ht, rfl⟩ := Option.map_eq_some_iff.mp hstep
        exact Or.inr ⟨_, ht⟩
      · cases h

/-! ## The counter of a conversation -/

theorem exchanging_of_phase {t t' : Chat.State} (h : t'.phase = t.phase) :
    exchanging t' c = exchanging t c := by
  rw [exchanging, exchanging, h]

/-- A socket is in an exchange. -/
theorem exchanging_enter_of_eq {t : Chat.State} {k : ℕ} {p : Option Phase}
    (hp : p.bind exchange = some c) : exchanging (t.enter k p) c = insert k (exchanging t c) := by
  ext j
  show (Function.update t.phase k p j).bind exchange = some c ↔ j = k ∨ j ∈ exchanging t c
  by_cases hj : j = k
  · rw [hj, Function.update_self]
    exact iff_of_true hp (Or.inl rfl)
  · rw [Function.update_of_ne hj, or_iff_right hj]
    rfl

/-- A socket is in no exchange, or in one of another conversation. -/
theorem exchanging_enter_of_ne {t : Chat.State} {k : ℕ} {p : Option Phase}
    (hp : p.bind exchange ≠ some c) : exchanging (t.enter k p) c = exchanging t c \ {k} := by
  ext j
  show (Function.update t.phase k p j).bind exchange = some c ↔ j ∈ exchanging t c ∧ j ≠ k
  by_cases hj : j = k
  · rw [hj, Function.update_self]
    exact iff_of_false hp fun h => h.2 rfl
  · rw [Function.update_of_ne hj, and_iff_left hj]
    rfl

/-- What a socket in an exchange has read. -/
theorem counter_read_of_mem {k : ℕ} (hk : k ∈ exchanging s.toState c) :
    (counter s c).read k = (s.read k).bind fun row => row.map (·.2.messageCount) := if_pos hk

theorem counter_read_of_notMem {k : ℕ} (hk : k ∉ exchanging s.toState c) :
    (counter s c).read k = none := if_neg hk

/-- A step that reads or writes no counter. -/
theorem counter_eq (hdb : Kept c s.db s'.db)
    (hreplies : messagesIn s'.db c .assistant = messagesIn s.db c .assistant)
    (hread : ∀ k, (counter s' c).read k = (counter s c).read k) : counter s' c = counter s c := by
  refine Counter.ext hdb.messageCount_eq ?_ (funext hread)
  show 2 * messagesIn s'.db c .assistant = 2 * messagesIn s.db c .assistant
  rw [hreplies]

/-- What the sessions and the sockets of a conversation hold. -/
structure Linked (c : String) (s : State) : Prop where
  finite : (exchanging s.toState c).Finite
  /-- a session reads at the end of a stream, the row of its conversation -/
  reading : ∀ k r, s.read k = some r → ∃ u d, s.phase k = some (.streaming u d) ∧
    ∀ i row, r = some (i, row) → i < s.db.conversations.nextId ∧
      ∀ conversation, (i, conversation) ∈ s.db.conversations.rows →
        conversation.conversationId = d
  found : ∀ k, (s.phase k).bind serves = some c → (conversationRow s.db c).isSome
  /-- the row that was read is there -/
  pending : ∀ k u r, s.phase k = some (.streaming u c) → s.read k = some r →
    ∃ i row conversation, r = some (i, row) ∧ conversationRow s.db c = some (i, conversation)

/-- What a step does to the counter of a conversation, to its questions and to the sockets that are
in an exchange. -/
inductive Effect (c : String) (s : State) (e : Event) (s' : State) : Prop
  | same (hexchanging : exchanging s'.toState c = exchanging s.toState c)
      (hcounter : counter s' c = counter s c)
      (hquestions : messagesIn s'.db c .user = messagesIn s.db c .user)
      (hloses : ¬ Loses c s e)
  | ask (k : ℕ) (hk : k ∉ exchanging s.toState c)
      (hexchanging : exchanging s'.toState c = insert k (exchanging s.toState c))
      (hcounter : counter s' c = counter s c)
      (hquestions : messagesIn s'.db c .user = messagesIn s.db c .user + 1)
      (hloses : ¬ Loses c s e)
  | read (k : ℕ) (hnone : (counter s c).read k = none)
      (hexchanging : exchanging s'.toState c = exchanging s.toState c)
      (hcounter : counter s' c = (counter s c).load k)
      (hquestions : messagesIn s'.db c .user = messagesIn s.db c .user)
      (hloses : ¬ Loses c s e)
  | reply (k r : ℕ) (hk : k ∈ exchanging s.toState c) (hread : (counter s c).read k = some r)
      (hexchanging : exchanging s'.toState c = exchanging s.toState c \ {k})
      (hcounter : counter s' c = (counter s c).store k r 2)
      (hquestions : messagesIn s'.db c .user = messagesIn s.db c .user)
      (hloses : Loses c s e ↔
        ∃ j, j ≠ k ∧ ((counter s c).read j).isSome)
  | leave (k : ℕ) (hk : k ∈ exchanging s.toState c)
      (hexchanging : exchanging s'.toState c = exchanging s.toState c \ {k})
      (hcounter : counter s' c = (counter s c).drop k)
      (hquestions : messagesIn s'.db c .user = messagesIn s.db c .user)
      (hloses : Loses c s e)

/-- An event that ends no exchange of the conversation loses nothing. -/
theorem not_loses (hends : ∀ k ∈ exchanging s.toState c, ¬ Ends e k)
    (hreplies : ∀ k ∈ exchanging s.toState c, ¬ Replies e k) :
    ¬ Loses c s e := by
  rintro (⟨k, hk, he⟩ | ⟨k, hk, he, -⟩)
  · exact hends k hk he
  · exact hreplies k hk he

/-- The sessions after a socket has left its exchange. -/
theorem counter_read_leave {t : Chat.State} {k : ℕ} {p : Option Phase}
    (hphase : t.phase = s.phase) (hafter : p.bind exchange ≠ some c) :
    (counter ⟨t.enter k p, Function.update s.read k none⟩ c).read =
      Function.update (counter s c).read k none := by
  have hexchanging : exchanging (t.enter k p) c = exchanging s.toState c \ {k} := by
    rw [exchanging_enter_of_ne hafter, exchanging_of_phase hphase]
  funext j
  by_cases hj : j = k
  · subst hj
    rw [Function.update_self, counter_read_of_notMem]
    show j ∉ exchanging (t.enter j p) c
    rw [hexchanging]
    exact fun h => h.2 rfl
  · rw [Function.update_of_ne hj]
    show (if (Function.update t.phase k p j).bind exchange = some c then
      (Function.update s.read k none j).bind _ else none) = _
    rw [Function.update_of_ne hj, Function.update_of_ne hj, hphase]
    rfl

/-- A socket outside of an exchange of the conversation goes on. -/
theorem effect_of_outside {t : Chat.State} {k : ℕ} {p : Option Phase}
    {read : ℕ → Option (Option (ℕ × ChatConversation))} (hphase : t.phase = s.phase)
    (hdb : Kept c s.db t.db) (hmessages : ∀ role, messagesIn t.db c role = messagesIn s.db c role)
    (hbefore : k ∉ exchanging s.toState c) (hafter : p.bind exchange ≠ some c)
    (hread : ∀ j, j ≠ k → read j = s.read j)
    (hends : ∀ j, Ends e j → j = k) (hreplies : ∀ j, Replies e j → j = k) :
    Effect c s e ⟨t.enter k p, read⟩ := by
  have hexchanging : exchanging (t.enter k p) c = exchanging s.toState c := by
    rw [exchanging_enter_of_ne hafter, exchanging_of_phase hphase,
      Set.sdiff_singleton_eq_self hbefore]
  have hne : ∀ j ∈ exchanging s.toState c, j ≠ k := fun j hj heq => hbefore (heq ▸ hj)
  refine .same hexchanging (counter_eq hdb (hmessages _) fun j => ?_) (hmessages _)
    (not_loses (fun j hj he => hne j hj (hends j he)) fun j hj he => hne j hj (hreplies j he))
  by_cases hj : j ∈ exchanging s.toState c
  · rw [counter_read_of_mem hj, counter_read_of_mem (hexchanging.symm ▸ hj : j ∈ exchanging _ c)]
    exact congrArg (Option.bind · _) (hread j (hne j hj))
  · rw [counter_read_of_notMem hj,
      counter_read_of_notMem (hexchanging.symm ▸ hj : j ∉ exchanging _ c)]

/-- The position of a socket is in an exchange of the conversation. -/
theorem mem_exchanging_iff {k : ℕ} {p : Phase} (hphase : s.phase k = some p) :
    k ∈ exchanging s.toState c ↔ exchange p = some c := by
  show (s.phase k).bind exchange = some c ↔ _
  rw [hphase]
  rfl

/-- A socket that is not at the end of a stream has no session that has read. -/
theorem Linked.read_eq_none (h : Linked c s) {k : ℕ} {p : Option Phase} (hphase : s.phase k = p)
    (hp : ∀ u d, p ≠ some (.streaming u d)) : s.read k = none := by
  by_contra hsome
  obtain ⟨r, hr⟩ := Option.ne_none_iff_exists'.mp hsome
  obtain ⟨u, d, hstreaming, -⟩ := h.reading k r hr
  exact hp u d (hphase.symm.trans hstreaming)

section Socket

variable {k : ℕ} {u d : String}

/-- A question is stored. -/
theorem effect_ask (hlinked : Linked c s) {text : String} {createdAt : Instant}
    (hphase : s.phase k = some (.waiting u d)) :
    Effect c s (.socket (.send k text createdAt))
      ⟨(s.commit (storeMessage s.db ⟨u, d, .user, text, none, createdAt⟩ (titled text)
        (key_titled text))).enter k (some (.stored u d)), s.read⟩ := by
  have houtside : k ∉ exchanging s.toState c := by
    rw [mem_exchanging_iff hphase]
    nofun
  by_cases hd : d = c
  · subst hd
    have hnone : s.read k = none := hlinked.read_eq_none hphase nofun
    refine .ask k houtside (exchanging_enter_of_eq rfl) (counter_eq (kept_ask ..) ?_ fun j => ?_) ?_
      (not_loses (by simp) (by simp))
    · exact (messagesIn_insert ..).trans (by simp)
    · by_cases hj : j = k
      · rw [hj, counter_read_of_notMem houtside]
        refine (counter_read_of_mem ?_).trans (by rw [hnone]; rfl)
        show k ∈ exchanging ((s.commit _).enter k (some (.stored u d))) d
        rw [exchanging_enter_of_eq rfl]
        exact Set.mem_insert k _
      · show (if (Function.update s.phase k _ j).bind exchange = some d then _ else _) = _
        rw [Function.update_of_ne hj]
        rfl
    · exact (messagesIn_insert ..).trans (by simp)
  · refine effect_of_outside rfl (kept_ask ..) (fun role => ?_) houtside
      (fun heq => hd (Option.some_inj.mp heq)) (fun _ _ => rfl) (by simp) (by simp)
    exact (messagesIn_insert ..).trans (by simp [hd])

/-- The history is read, and the reply is streamed. -/
theorem effect_stream (hphase : s.phase k = some (.stored u d)) :
    Effect c s (.socket (.history k)) ⟨s.enter k (some (.streaming u d)), s.read⟩ := by
  by_cases hd : d = c
  · subst hd
    have hk : k ∈ exchanging s.toState d := (mem_exchanging_iff hphase).mpr rfl
    have hexchanging : exchanging (s.enter k (some (.streaming u d))) d = exchanging s.toState d :=
      (exchanging_enter_of_eq rfl).trans (Set.insert_eq_of_mem hk)
    refine .same hexchanging (counter_eq (.of_eq rfl) rfl fun j => ?_) rfl
      (not_loses (by simp) (by simp))
    by_cases hj : j ∈ exchanging s.toState d
    · rw [counter_read_of_mem hj, counter_read_of_mem (hexchanging.symm ▸ hj : j ∈ exchanging _ d)]
    · rw [counter_read_of_notMem hj,
        counter_read_of_notMem (hexchanging.symm ▸ hj : j ∉ exchanging _ d)]
  · have houtside : k ∉ exchanging s.toState c := fun hk =>
      hd (Option.some_inj.mp ((mem_exchanging_iff hphase).mp hk))
    exact effect_of_outside rfl (.of_eq rfl) (fun _ => rfl) houtside
      (fun heq => hd (Option.some_inj.mp heq)) (fun _ _ => rfl) (by simp) (by simp)

/-- The session of a reply reads the row. -/
theorem effect_read (hlinked : Linked c s) (hphase : s.phase k = some (.streaming u d))
    (hnone : s.read k = none) :
    Effect c s (.read k)
      { s with read := Function.update s.read k (some (conversationRow s.db d)) } := by
  have hloses : ¬ Loses c s (.read k) := not_loses (by simp) (by simp)
  by_cases hd : d = c
  · subst hd
    have hk : k ∈ exchanging s.toState d := (mem_exchanging_iff hphase).mpr rfl
    obtain ⟨row, hrow⟩ := Option.isSome_iff_exists.mp (hlinked.found k (by rw [hphase]; rfl))
    refine .read k (by rw [counter_read_of_mem hk, hnone]; rfl) rfl
      (Counter.ext rfl rfl (funext fun j => ?_)) rfl hloses
    by_cases hj : j = k
    · subst hj
      show (if (s.phase j).bind exchange = some d then (Function.update s.read j _ j).bind _
        else none) = Function.update (counter s d).read j (some (messageCount s.db d)) j
      have hin : (s.phase j).bind exchange = some d := hk
      rw [if_pos hin, Function.update_self, Function.update_self, messageCount, hrow]
      rfl
    · show (if _ then (Function.update s.read k _ j).bind _ else _) =
        Function.update (counter s d).read k _ j
      rw [Function.update_of_ne hj, Function.update_of_ne hj]
      rfl
  · have houtside : k ∉ exchanging s.toState c := fun hk =>
      hd (Option.some_inj.mp ((mem_exchanging_iff hphase).mp hk))
    refine .same rfl (counter_eq (.of_eq rfl) rfl fun j => ?_) rfl hloses
    by_cases hj : j = k
    · rw [hj]
      exact (if_neg houtside).trans (if_neg houtside).symm
    · show (if _ then (Function.update s.read k _ j).bind _ else _) = _
      rw [Function.update_of_ne hj]
      rfl

section Reply

variable {text : String} {tokensUsed : Option ℕ} {createdAt now : Instant}

/-- A reply loses messages exactly when another session of the conversation has read. -/
theorem loses_reply_iff (hlinked : Linked c s) (hk : k ∈ exchanging s.toState c) :
    Loses c s (.reply k text tokensUsed createdAt now) ↔
      ∃ j, j ≠ k ∧ ((counter s c).read j).isSome := by
  constructor
  · rintro (⟨j, -, hj⟩ | ⟨j, -, hj, j', hj', hne, hsome⟩)
    · exact absurd hj not_ends_reply
    · obtain rfl := replies_reply.mp hj
      obtain ⟨r, hr⟩ := Option.isSome_iff_exists.mp hsome
      obtain ⟨v, d', hstreaming, -⟩ := hlinked.reading j' r hr
      obtain rfl : d' = c := Option.some_inj.mp ((mem_exchanging_iff hstreaming).mp hj')
      obtain ⟨i', row', -, rfl, -⟩ := hlinked.pending j' v r hstreaming hr
      refine ⟨j', hne, ?_⟩
      rw [counter_read_of_mem hj', hr]
      rfl
  · rintro ⟨j, hne, hsome⟩
    by_cases hj : j ∈ exchanging s.toState c
    · rw [counter_read_of_mem hj] at hsome
      refine Or.inr ⟨k, hk, ⟨_, _, _, _, rfl⟩, j, hj, hne, ?_⟩
      cases hr : s.read j with
      | some r => rfl
      | none => rw [hr] at hsome; cases hsome
    · rw [counter_read_of_notMem hj] at hsome
      cases hsome

/-- A reply is stored, with the counter of the row that was read. -/
theorem effect_reply (hlinked : Linked c s) {read : Option (ℕ × ChatConversation)}
    (hphase : s.phase k = some (.streaming u d)) (hread : s.read k = some read) :
    Effect c s (.reply k text tokensUsed createdAt now)
      ⟨(if read.all fun r => (s.db.conversations.find? r.1).isSome then
          s.commit (saveReply s.db ⟨u, d, .assistant, text, tokensUsed, createdAt⟩ read now)
        else s.toState).enter k (some (.waiting u d)), Function.update s.read k none⟩ := by
  by_cases hd : d = c
  · subst hd
    obtain ⟨i, row, conversation, rfl, hrow⟩ := hlinked.pending k u read hphase hread
    have hk : k ∈ exchanging s.toState d := (mem_exchanging_iff hphase).mpr rfl
    have hall : (some (i, row)).all (fun r => (s.db.conversations.find? r.1).isSome) = true :=
      Option.isSome_of_mem (Table.find?_eq_some_iff.mpr (conversationRow_eq_some hrow).1)
    rw [if_pos hall]
    refine .reply k row.messageCount hk ?_ (exchanging_enter_of_ne nofun)
      (Counter.ext ?_ ?_ (counter_read_leave rfl nofun)) ?_ (loses_reply_iff hlinked hk)
    · rw [counter_read_of_mem hk, hread]
      rfl
    · show messageCount (saveReply s.db _ (some (i, row)) now) d = row.messageCount + 2
      rw [messageCount, conversationRow_saveReply hrow]
      rfl
    · show 2 * messagesIn (saveReply s.db _ (some (i, row)) now) d .assistant =
        2 * messagesIn s.db d .assistant + 2
      rw [saveReply, messagesIn_insert, if_pos ⟨rfl, rfl⟩]
      rfl
    · exact (messagesIn_insert ..).trans (by simp)
  · have houtside : k ∉ exchanging s.toState c := fun hk =>
      hd (Option.some_inj.mp ((mem_exchanging_iff hphase).mp hk))
    split
    · refine effect_of_outside rfl (kept_saveReply fun r hr conversation hrow => hd ?_)
        (fun role => ?_) houtside nofun (fun j hj => Function.update_of_ne hj ..) (by simp)
        (by simp [eq_comm])
      · -- the row that was read is the one of the socket's conversation
        obtain ⟨_, d', hstreaming, hown⟩ := hlinked.reading k read hread
        rw [hphase] at hstreaming
        cases hstreaming
        obtain ⟨hmem, hc⟩ := conversationRow_eq_some hrow
        obtain ⟨i, row⟩ := r
        exact ((hown i row hr).2 conversation hmem).symm.trans hc
      · exact (messagesIn_insert ..).trans (by simp [hd])
    · exact effect_of_outside rfl (.of_eq rfl) (fun _ => rfl) houtside nofun
        (fun j hj => Function.update_of_ne hj ..) (by simp) (by simp [eq_comm])

end Reply

end Socket

/-- **The effect of a step** on a conversation that no deletion has a part in. -/
theorem effect_of_step (hlinked : Linked c s) (hspares : Spares c s e) (h : step s e = some s') :
    Effect c s e s' := by
  cases move_of_step h with
  | @still db hdb hends hreplies =>
      have hmessages : ∀ role, messagesIn db c role = messagesIn s.db c role := fun role => by
        rw [messagesIn, hdb.messages_eq, messagesIn]
      exact .same rfl (counter_eq (hdb.kept c) (hmessages _) fun _ => rfl) (hmessages _)
        (not_loses (fun k _ => hends k) fun k _ => hreplies k)
  | @idle db hdb k p read hbefore hafter _ hread hends hreplies =>
      refine effect_of_outside rfl (hdb.kept c) (fun role => ?_) (fun hk => ?_) (by simp [hafter])
        (fun j hj => ?_) hends fun j hj => absurd hj (hreplies j)
      · show messagesIn db c role = _
        rw [messagesIn, hdb.messages_eq, messagesIn]
      · cases hbefore.symm.trans (show (s.phase k).bind exchange = some c from hk)
      · rcases hread with rfl | rfl
        · rfl
        · exact Function.update_of_ne hj ..
  | clear hphase he =>
      subst he
      obtain ⟨hconversations, hmessages⟩ := hspares _ _ _ rfl hphase
      refine effect_of_outside rfl (kept_cleared hconversations) (messagesIn_cleared hmessages)
        ?_ nofun (fun _ _ => rfl) (by simp) (by simp)
      rw [mem_exchanging_iff hphase]
      nofun
  | ask hphase he => exact he ▸ effect_ask hlinked hphase
  | stream hphase he => exact he ▸ effect_stream hphase
  | read hphase hnone he => exact he ▸ effect_read hlinked hphase hnone
  | reply hphase hread he => exact he ▸ effect_reply hlinked hphase hread
  | @leave k d p hphase he hafter =>
      by_cases hd : d = c
      · subst hd
        refine .leave k hphase (exchanging_enter_of_ne (by simp [hafter]))
          (Counter.ext rfl rfl (counter_read_leave rfl (by simp [hafter]))) rfl
          (Or.inl ⟨k, hphase, he⟩)
      · refine effect_of_outside rfl (.of_eq rfl) (fun _ => rfl) (fun hk => ?_) (by simp [hafter])
          (fun j hj => Function.update_of_ne hj ..) (fun j hj => ?_) fun j hj => ?_
        · exact hd (Option.some_inj.mp (hphase.symm.trans hk))
        · rcases he with rfl | rfl <;> simpa [eq_comm] using hj
        · rcases he with rfl | rfl <;> exact absurd hj not_replies_socket

/-! ## What is kept -/

/-- The row of the conversation is never lost. -/
theorem Move.row (h : Move s e s') (hspares : Spares c s e) {i : ℕ}
    {conversation : ChatConversation} (hrow : conversationRow s.db c = some (i, conversation)) :
    ∃ after, conversationRow s'.db c = some (i, after) := by
  cases h with
  | still hdb => exact (hdb.kept c).row i conversation hrow
  | idle hdb => exact (hdb.kept c).row i conversation hrow
  | clear hphase he =>
      exact (kept_cleared (hspares _ _ _ he hphase).1).row i conversation hrow
  | ask => exact (kept_ask ..).row i conversation hrow
  | stream => exact ⟨conversation, hrow⟩
  | read => exact ⟨conversation, hrow⟩
  | @reply k u d text tokensUsed createdAt now read =>
      split
      · cases read with
        | none => exact ⟨conversation, hrow⟩
        | some r =>
            have hmodify := @conversationRow_modify s.db (fun j a =>
              if decide (j = r.1) then counted r.2 now a else a)
              (fun _ hk i a => by rw [List.mem_singleton.mp hk]; split <;> rfl)
              (s.db.messages.insert ⟨u, d, .assistant, text, tokensUsed, createdAt⟩) c
            rw [hrow] at hmodify
            exact ⟨_, hmodify⟩
      · exact ⟨conversation, hrow⟩
  | leave => exact ⟨conversation, hrow⟩

/-- Sessions that go on as they were. -/
theorem Linked.mono (h : Linked c s) (hfinite : (exchanging s'.toState c).Finite)
    (hkeyed : Keyed s.db s'.db)
    (hrow : ∀ i conversation, conversationRow s.db c = some (i, conversation) →
      ∃ after, conversationRow s'.db c = some (i, after))
    (hread : ∀ k r, s'.read k = some r → s.read k = some r ∧ s'.phase k = s.phase k)
    (hserves : ∀ k, (s'.phase k).bind serves = some c →
      (s.phase k).bind serves = some c ∨ (conversationRow s'.db c).isSome) : Linked c s' where
  finite := hfinite
  reading k r hr := by
    obtain ⟨hold, hphase⟩ := hread k r hr
    obtain ⟨u, d, hstreaming, hown⟩ := h.reading k r hold
    refine ⟨u, d, hphase.trans hstreaming, fun i row hi => ?_⟩
    obtain ⟨hlt, hconversation⟩ := hown i row hi
    refine ⟨hlt.trans_le hkeyed.nextId_le, fun conversation hmem => ?_⟩
    obtain ⟨before, hbefore, heq⟩ := hkeyed.row i conversation hmem hlt
    exact heq.symm.trans (hconversation before hbefore)
  found k hk := by
    rcases hserves k hk with hold | hfound
    · obtain ⟨⟨i, conversation⟩, hi⟩ := Option.isSome_iff_exists.mp (h.found k hold)
      obtain ⟨after, hafter⟩ := hrow i conversation hi
      exact Option.isSome_of_mem hafter
    · exact hfound
  pending k u r hphase hr := by
    obtain ⟨hold, hsame⟩ := hread k r hr
    obtain ⟨i, row, conversation, rfl, hi⟩ := h.pending k u r (hsame.symm.trans hphase) hold
    obtain ⟨after, hafter⟩ := hrow i conversation hi
    exact ⟨i, row, after, rfl, hafter⟩

/-- **Sessions and sockets** stay linked to the conversation. -/
theorem linked_of_step (hlinked : Linked c s) (hspares : Spares c s e) (h : step s e = some s') :
    Linked c s' := by
  have hfinite : (exchanging s'.toState c).Finite := by
    cases effect_of_step hlinked hspares h with
    | same hexchanging | read _ _ hexchanging => exact hexchanging ▸ hlinked.finite
    | ask k _ hexchanging => exact hexchanging ▸ hlinked.finite.insert k
    | reply _ _ _ _ hexchanging | leave _ _ hexchanging => exact hexchanging ▸ hlinked.finite.sdiff
  have hmove := move_of_step h
  have hkeyed := hmove.keyed
  have hrow : ∀ i conversation, conversationRow s.db c = some (i, conversation) →
      ∃ after, conversationRow s'.db c = some (i, after) := fun _ _ => hmove.row hspares
  -- the actor has read nothing, or ends; the others stay as they are
  have hothers : ∀ {t : Chat.State} {k : ℕ} {p : Option Phase}
      {read : ℕ → Option (Option (ℕ × ChatConversation))}, t.phase = s.phase →
      (read = s.read ∧ s.read k = none ∨ read = Function.update s.read k none) →
      ∀ j r, read j = some r → s.read j = some r ∧ (t.enter k p).phase j = s.phase j := by
    intro t k p read hphase hread j r hr
    by_cases hj : j = k
    · subst hj
      rcases hread with ⟨rfl, hnone⟩ | rfl
      · rw [hnone] at hr
        cases hr
      · rw [Function.update_self] at hr
        cases hr
    · refine ⟨?_, (Function.update_of_ne hj ..).trans (congrFun hphase j)⟩
      rcases hread with ⟨rfl, -⟩ | rfl
      · exact hr
      · rwa [Function.update_of_ne hj] at hr
  have hactor : ∀ {t : Chat.State} {k : ℕ} {p : Option Phase}, t.phase = s.phase →
      (∀ d ∈ p.bind serves, (s.phase k).bind serves = some d ∨ (conversationRow s'.db d).isSome) →
      ∀ j, ((t.enter k p).phase j).bind serves = some c →
        (s.phase j).bind serves = some c ∨ (conversationRow s'.db c).isSome := by
    intro t k p hphase hp j hj
    by_cases hjk : j = k
    · subst hjk
      rw [phase_enter, Function.update_self] at hj
      exact hp c hj
    · refine Or.inl (Eq.trans ?_ hj)
      rw [phase_enter, Function.update_of_ne hjk, hphase]
  cases hmove with
  | still hdb =>
      exact hlinked.mono hfinite hkeyed hrow (fun _ _ hr => ⟨hr, rfl⟩) fun _ hk => Or.inl hk
  | @idle db hdb k p read hbefore hafter hserves hread =>
      have hnone : s.read k = none := by
        refine hlinked.read_eq_none rfl fun u d hstreaming => ?_
        rw [hstreaming] at hbefore
        cases hbefore
      exact hlinked.mono hfinite hkeyed hrow
        (hothers rfl (hread.imp_left fun heq => ⟨heq, hnone⟩)) (hactor rfl hserves)
  | clear hphase =>
      have hnone := hlinked.read_eq_none hphase nofun
      exact hlinked.mono hfinite hkeyed hrow (hothers rfl (Or.inl ⟨rfl, hnone⟩))
        (hactor rfl nofun)
  | ask hphase =>
      have hnone := hlinked.read_eq_none hphase nofun
      refine hlinked.mono hfinite hkeyed hrow (hothers rfl (Or.inl ⟨rfl, hnone⟩))
        (hactor rfl ?_)
      rintro d ⟨rfl⟩
      rw [hphase]
      exact Or.inl rfl
  | stream hphase =>
      have hnone := hlinked.read_eq_none hphase nofun
      refine hlinked.mono hfinite hkeyed hrow (hothers rfl (Or.inl ⟨rfl, hnone⟩))
        (hactor rfl ?_)
      rintro d ⟨rfl⟩
      rw [hphase]
      exact Or.inl rfl
  | @read k u d hphase hnone =>
      have hold : ∀ j, j ≠ k → Function.update s.read k (some (conversationRow s.db d)) j =
          s.read j := fun j hj => Function.update_of_ne hj ..
      refine ⟨hfinite, fun j r hr => ?_, hlinked.found, fun j v r hstreaming hr => ?_⟩
      · by_cases hj : j = k
        · subst hj
          change Function.update s.read j (some (conversationRow s.db d)) j = some r at hr
          rw [Function.update_self, Option.some_inj] at hr
          refine ⟨u, d, hphase, fun i row hi => ?_⟩
          obtain ⟨hmem, hrow_d⟩ := conversationRow_eq_some (hr.trans hi)
          refine ⟨s.db.conversations.below _ hmem, fun conversation hconversation => ?_⟩
          rw [Table.eq_of_mem hconversation hmem]
          exact hrow_d
        · exact hlinked.reading j r ((hold j hj).symm.trans hr)
      · by_cases hj : j = k
        · subst hj
          obtain rfl : d = c := by
            rw [hphase] at hstreaming
            cases hstreaming
            rfl
          change Function.update s.read j (some (conversationRow s.db d)) j = some r at hr
          rw [Function.update_self, Option.some_inj] at hr
          obtain ⟨⟨i, row⟩, hi⟩ := Option.isSome_iff_exists.mp
            (hlinked.found j (by rw [hphase]; rfl))
          exact ⟨i, row, row, hr.symm.trans hi, hi⟩
        · exact hlinked.pending j v r hstreaming ((hold j hj).symm.trans hr)
  | reply hphase =>
      have hsame : ∀ (q : Bool) (db : Store),
          (if q then s.commit db else s.toState).phase = s.phase := by
        intro q db
        cases q <;> rfl
      refine hlinked.mono hfinite hkeyed hrow (hothers (hsame _ _) (Or.inr rfl))
        (hactor (hsame _ _) ?_)
      rintro d ⟨rfl⟩
      rw [hphase]
      exact Or.inl rfl
  | @leave k d p hphase he hafter hserves =>
      refine hlinked.mono hfinite hkeyed hrow (hothers rfl (Or.inr rfl)) (hactor rfl ?_)
      intro d' hd'
      obtain rfl := hserves d' hd'
      obtain ⟨q, hq, hexchange⟩ := Option.bind_eq_some_iff.mp hphase
      refine Or.inl ?_
      rw [hq]
      cases q with
      | stored | streaming => exact hexchange
      | _ => cases hexchange

/-! ## Drift -/

/-- Messages have been stored that are not counted, or will not be. -/
def Drifted (c : String) (s : State) : Prop :=
  (counter s c).Behind ∨
    messagesIn s.db c .assistant + (exchanging s.toState c).ncard < messagesIn s.db c .user

/-- The counter counts no more than the replies and their questions, and every socket in an exchange
has asked a question. -/
structure Accounted (c : String) (s : State) : Prop where
  linked : Linked c s
  valid : (counter s c).Valid
  questions : messagesIn s.db c .assistant + (exchanging s.toState c).ncard ≤
    messagesIn s.db c .user

/-- **One step.**  The counter of a conversation drifts with the messages that the step loses, and
never recovers. -/
theorem drifted_iff (haccounted : Accounted c s) (hspares : Spares c s e)
    (h : step s e = some s') :
    Accounted c s' ∧ (Drifted c s' ↔ Drifted c s ∨ Loses c s e) := by
  have hlinked := linked_of_step haccounted.linked hspares h
  have hfinite := haccounted.linked.finite
  have hquestions := haccounted.questions
  have hreplies : ∀ {d : ℕ}, (counter s' c).total = (counter s c).total + 2 * d →
      messagesIn s'.db c .assistant = messagesIn s.db c .assistant + d := by
    intro d htotal
    have htotal : 2 * messagesIn s'.db c .assistant = 2 * messagesIn s.db c .assistant + 2 * d :=
      htotal
    omega
  cases effect_of_step haccounted.linked hspares h with
  | same hexchanging hcounter huser hloses =>
      have hassistant := @hreplies 0 (by rw [hcounter]; rfl)
      refine ⟨⟨hlinked, hcounter ▸ haccounted.valid, ?_⟩, ?_⟩
      · rw [hexchanging, huser, hassistant]
        exact hquestions
      · rw [or_iff_left hloses, Drifted, Drifted, hcounter, hexchanging, huser, hassistant]
        rfl
  | ask k hk hexchanging hcounter huser hloses =>
      have hassistant := @hreplies 0 (by rw [hcounter]; rfl)
      have hcard := Set.ncard_insert_of_notMem hk hfinite
      refine ⟨⟨hlinked, hcounter ▸ haccounted.valid, ?_⟩, ?_⟩
      · rw [hexchanging, huser, hassistant, hcard]
        omega
      · rw [or_iff_left hloses, Drifted, Drifted, hcounter, hexchanging, huser, hassistant, hcard]
        refine or_congr_right ?_
        omega
  | read k hnone hexchanging hcounter huser hloses =>
      have hassistant := @hreplies 0 (by rw [hcounter]; rfl)
      refine ⟨⟨hlinked, hcounter ▸ haccounted.valid.load hnone, ?_⟩, ?_⟩
      · rw [hexchanging, huser, hassistant]
        exact hquestions
      · rw [or_iff_left hloses, Drifted, Drifted, hcounter, hexchanging, huser, hassistant,
          Counter.behind_load_iff hnone]
        rfl
  | reply k r hk hread hexchanging hcounter huser hloses =>
      have hassistant := @hreplies 1 (by rw [hcounter]; rfl)
      have hcard := Set.ncard_sdiff_singleton_add_one hk hfinite
      refine ⟨⟨hlinked, hcounter ▸ haccounted.valid.store hread Nat.two_pos, ?_⟩, ?_⟩
      · rw [hexchanging, huser, hassistant]
        omega
      · rw [hloses, Drifted, Drifted, hcounter, hexchanging, huser, hassistant,
          Counter.behind_store_iff haccounted.valid hread Nat.two_pos, or_right_comm]
        refine or_congr_left (or_congr_right ?_)
        omega
  | leave k hk hexchanging hcounter huser hloses =>
      have hassistant := @hreplies 0 (by rw [hcounter]; rfl)
      have hcard := Set.ncard_sdiff_singleton_add_one hk hfinite
      refine ⟨⟨hlinked, hcounter ▸ haccounted.valid.drop, ?_⟩, ?_⟩
      · rw [hexchanging, huser, hassistant]
        omega
      · -- the question stays without a reply
        refine iff_of_true (Or.inr ?_) (Or.inr hloses)
        rw [hexchanging, huser, hassistant]
        omega

/-! ## Runs -/

/-- Nobody is connected, and every question of the conversation is answered and counted. -/
structure Settled (c : String) (s : State) : Prop where
  phase : ∀ k, s.phase k = none
  read : ∀ k, s.read k = none
  answered : messagesIn s.db c .user = messagesIn s.db c .assistant
  counted : messageCount s.db c = 2 * messagesIn s.db c .assistant

/-- Sockets in an exchange are connected. -/
theorem Settled.exchanging_eq (h : Settled c s) : exchanging s.toState c = ∅ := by
  refine Set.eq_empty_of_forall_notMem fun k hk => ?_
  have hin : (s.phase k).bind exchange = some c := hk
  rw [h.phase k] at hin
  cases hin

/-- At rest no session has read. -/
theorem read_eq_none_of_quiet (h : exchanging s.toState c = ∅) (k : ℕ) :
    (counter s c).read k = none :=
  counter_read_of_notMem (h ▸ Set.notMem_empty k)

/-- The start. -/
theorem Settled.accounted (h : Settled c s) : Accounted c s ∧ ¬ Drifted c s := by
  have hnone : ∀ k, (counter s c).read k = none := read_eq_none_of_quiet h.exchanging_eq
  have hcard : (exchanging s.toState c).ncard = 0 := by rw [h.exchanging_eq, Set.ncard_empty]
  have hvalid : (counter s c).Valid := by
    refine ⟨h.counted.le, fun k r hr => ?_⟩
    rw [hnone k] at hr
    cases hr
  refine ⟨⟨⟨?_, fun k r hr => ?_, fun k hk => ?_, fun k u r _ hr => ?_⟩, hvalid, ?_⟩, ?_⟩
  · rw [h.exchanging_eq]
    exact Set.finite_empty
  · rw [h.read k] at hr
    cases hr
  · rw [h.phase k] at hk
    cases hk
  · rw [h.read k] at hr
    cases hr
  · rw [hcard, h.answered, add_zero]
  · rintro (hbehind | hlt)
    · exact (Counter.value_eq_total_iff hvalid hnone).mp h.counted hbehind
    · rw [hcard, h.answered] at hlt
      exact absurd hlt (lt_irrefl _)

/-- **A run** drifts exactly when one of its steps loses messages. -/
theorem drifted_of_execution {t : State} {tr : List (State × Event)}
    (h : Execution step (Spares c) s tr t) (hs : Settled c s) :
    Accounted c t ∧ (Drifted c t ↔ ∃ x ∈ tr, Loses c x.1 x.2) := by
  refine h.traceInvariant
    (I := fun tr t => Accounted c t ∧ (Drifted c t ↔ ∃ x ∈ tr, Loses c x.1 x.2)) ?_ ?_
  · obtain ⟨haccounted, hnot⟩ := hs.accounted
    exact ⟨haccounted, iff_of_false hnot (by simp)⟩
  · intro tr p e q ⟨haccounted, hiff⟩ hspares hstep
    obtain ⟨haccounted', hdrifted⟩ := drifted_iff haccounted hspares hstep
    refine ⟨haccounted', ?_⟩
    rw [hdrifted, hiff, List.exists_mem_cons_iff, or_comm]

/-- The messages of a conversation are questions and replies. -/
theorem length_messagesOf (db : Store) (c : String) :
    (messagesOf db c).length = messagesIn db c .user + messagesIn db c .assistant := by
  rw [messagesOf, List.length_map, List.length_insertionSort, ← List.countP_eq_length_filter,
    messagesIn, messagesIn, Table.values, List.countP_map, List.countP_map]
  induction db.messages.rows with
  | nil => rfl
  | cons r rows ih =>
      rw [List.countP_cons, List.countP_cons, List.countP_cons, ih]
      by_cases hc : r.2.conversationId = c
      · cases hrole : r.2.role <;> simp [hc, hrole] <;> omega
      · simp [hc]

/-- **The counter at rest.**  In every run of exchanges, over any number of sockets, the
`message_count` of the conversation is the number of its messages in a state in which no exchange is
in progress exactly when no exchange has been broken off and no reply has been stored while another
one to the conversation was being stored. -/
theorem messageCount_iff {t : State} {tr : List (State × Event)}
    (h : Execution step (Spares c) s tr t) (hs : Settled c s)
    (hquiet : exchanging t.toState c = ∅) {conversation : ChatConversation}
    (hconversation : getConversation t.db c = some conversation) :
    conversation.messageCount = (messagesOf t.db c).length ↔ ∀ x ∈ tr, ¬ Loses c x.1 x.2 := by
  obtain ⟨haccounted, hdrifted⟩ := drifted_of_execution h hs
  have hnone := read_eq_none_of_quiet hquiet
  have hbehind := Counter.value_eq_total_iff haccounted.valid hnone
  have hvalue : messageCount t.db c = conversation.messageCount := by
    rw [getConversation_eq] at hconversation
    obtain ⟨r, hr, rfl⟩ := Option.map_eq_some_iff.mp hconversation
    rw [messageCount, hr]
    rfl
  have hle : messageCount t.db c ≤ 2 * messagesIn t.db c .assistant := haccounted.valid.value_le
  have hquestions := haccounted.questions
  have hcard : (exchanging t.toState c).ncard = 0 := by rw [hquiet, Set.ncard_empty]
  have hno : (∀ x ∈ tr, ¬ Loses c x.1 x.2) ↔ ¬ Drifted c t := by
    rw [hdrifted]
    push Not
    rfl
  rw [hno, Drifted, not_or, ← hbehind, ← hvalue, length_messagesOf]
  show messageCount t.db c = _ ↔ messageCount t.db c = 2 * messagesIn t.db c .assistant ∧ _
  rw [hcard] at hquestions ⊢
  omega

/-! ### Exchanges -/

/-- Nothing is stored and nobody is connected. -/
def start : State := ⟨Chat.start, fun _ => none⟩

theorem settled_start (c : String) : Settled c start := ⟨fun _ => rfl, fun _ => rfl, rfl, rfl⟩

/-- A question and its reply, while another socket waits. -/
def answeredOnce : List Event :=
  [.socket (.connect 0 "ada" "c"), .socket (.ensure 0), .socket (.insert 0),
    .socket (.connect 1 "ada" "c"), .socket (.ensure 1), .socket (.send 0 "who is late?" 1),
    .socket (.history 0), .read 0, .reply 0 "nobody" (some 12) 2 2]

/-- The model fails after the question. -/
def brokenOff : List Event :=
  [.socket (.connect 0 "ada" "c"), .socket (.ensure 0), .socket (.insert 0),
    .socket (.send 0 "who is late?" 1), .socket (.history 0), .socket (.fail 0)]

/-- Two sockets store their replies at the same time. -/
def atOnce : List Event :=
  [.socket (.connect 0 "ada" "c"), .socket (.ensure 0), .socket (.insert 0),
    .socket (.connect 1 "ada" "c"), .socket (.ensure 1), .socket (.send 0 "who is late?" 1),
    .socket (.send 1 "who is not?" 1), .socket (.history 0), .socket (.history 1), .read 0,
    .read 1, .reply 0 "nobody" (some 12) 2 2, .reply 1 "everybody" (some 12) 3 3]

/-- Only a deletion can have a part in a conversation. -/
theorem spares_of_ne (h : ∀ k, e ≠ .socket (.commitClear k)) : Spares c s e :=
  fun k _ _ he => absurd he (h k)

/-- A list of labels without a deletion runs as exchanges do. -/
theorem spares_traceOf {ls : List Event} (h : ∀ e ∈ ls, ∀ k, e ≠ .socket (.commitClear k))
    (s : State) {tr : List (State × Event)} (htr : ∀ x ∈ tr, Spares c x.1 x.2) :
    ∀ x ∈ traceOf step s ls tr, Spares c x.1 x.2 := by
  induction ls generalizing s tr with
  | nil => exact htr
  | cons e ls ih =>
      obtain ⟨he, hls⟩ := List.forall_mem_cons.mp h
      rw [traceOf]
      split
      · exact ih hls _ (List.forall_mem_cons.mpr ⟨spares_of_ne he, htr⟩)
      · exact htr

/-- What a run of exchanges leaves at rest. -/
theorem exists_run {ls : List Event} (h : ∀ e ∈ ls, ∀ k, e ≠ .socket (.commitClear k))
    {count stored : ℕ} (hrun : ∃ t, execute step start ls = some t ∧
      (∀ k, (t.phase k).bind exchange ≠ some c) ∧
      (getConversation t.db c).map (·.messageCount) = some count ∧
      (messagesOf t.db c).length = stored) :
    ∃ t conversation, Execution step (Spares c) start (traceOf step start ls []) t ∧
      exchanging t.toState c = ∅ ∧ getConversation t.db c = some conversation ∧
      conversation.messageCount = count ∧ (messagesOf t.db c).length = stored := by
  obtain ⟨t, ht, hquiet, hcount, hstored⟩ := hrun
  obtain ⟨conversation, hconversation, rfl⟩ := Option.map_eq_some_iff.mp hcount
  exact ⟨t, conversation, Execution.nil.of_execute_append ht (spares_traceOf h start (by simp)),
    Set.eq_empty_of_forall_notMem hquiet, hconversation, rfl, hstored⟩

/-- **Messages that are not counted**, after a failure and after two replies at once. -/
theorem messageCount_drifts :
    (∃ tr t conversation, Execution step (Spares "c") start tr t ∧
      exchanging t.toState "c" = ∅ ∧ getConversation t.db "c" = some conversation ∧
      conversation.messageCount = 0 ∧ (messagesOf t.db "c").length = 1) ∧
    ∃ tr t conversation, Execution step (Spares "c") start tr t ∧
      exchanging t.toState "c" = ∅ ∧ getConversation t.db "c" = some conversation ∧
      conversation.messageCount = 2 ∧ (messagesOf t.db "c").length = 4 := by
  refine ⟨⟨_, @exists_run "c" brokenOff (by simp [brokenOff]) 0 1 ⟨_, rfl, fun k => ?_, rfl, ?_⟩⟩,
    ⟨_, @exists_run "c" atOnce (by simp [atOnce]) 2 4 ⟨_, rfl, fun k => ?_, rfl, ?_⟩⟩⟩
  · match k with
    | 0 | k + 1 => nofun
  · decide +kernel
  · match k with
    | 0 | 1 | k + 2 => nofun
  · decide +kernel

/-- A question and its reply are counted. -/
theorem messageCount_answered : ∃ tr t conversation, Execution step (Spares "c") start tr t ∧
    exchanging t.toState "c" = ∅ ∧ getConversation t.db "c" = some conversation ∧
    conversation.messageCount = 2 ∧
    (conversation.messageCount = (messagesOf t.db "c").length ↔
      ∀ x ∈ tr, ¬ Loses "c" x.1 x.2) := by
  obtain ⟨t, conversation, hrun, hquiet, hconversation, hcount, -⟩ :=
    @exists_run "c" answeredOnce (by simp [answeredOnce]) 2 2 ⟨_, rfl, fun k => by
      match k with
      | 0 | 1 | k + 2 => nofun, rfl, by decide +kernel⟩
  exact ⟨_, t, conversation, hrun, hquiet, hconversation, hcount,
    messageCount_iff hrun (settled_start "c") hquiet hconversation⟩

end ProcureSignal.Chat.Counting
