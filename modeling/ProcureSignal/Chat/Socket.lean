/-
# A chat window and its socket

`frontend/lib/chatReducer.ts` and `frontend/components/chat-window.tsx` on one side of a socket,
`chat_websocket` of `api/routers/chat.py` on the other.  Questions and frames are on their way in
both directions while other sockets and requests go on at the server.

* `chatReducer`, `step` : the window and the two sides together;
* `phase_of_step`, `send_eq_some`, ... : what a step does at the server;
* `messagesOf_storeMessage` : where a message goes in its conversation.
-/
import ProcureSignal.Chat.Conversations

namespace ProcureSignal.Chat.Window

/-! ## The window -/

/-- `ChatMessage` of the browser. -/
abbrev Line := MessageRole × String

/-- `ChatFrameType`. -/
inductive ChatFrameType
  | start
  | stream
  | ended
  | error
  deriving DecidableEq, Repr

/-- `ChatFrame`. -/
structure ChatFrame where
  type : ChatFrameType
  content : String
  deriving DecidableEq, Repr

/-- `ChatState`. -/
structure ChatState where
  messages : List Line
  streaming : Bool
  error : Option String
  deriving DecidableEq, Repr

/-- `initialChatState`. -/
def initialChatState (history : List Line) : ChatState := ⟨history, false, none⟩

/-- `appendUserMessage`. -/
def appendUserMessage (s : ChatState) (content : String) : ChatState :=
  { s with error := none, messages := s.messages ++ [(.user, content)] }

/-- `chatReducer`. -/
def chatReducer (s : ChatState) (frame : ChatFrame) : ChatState :=
  match frame.type with
  | .start => ⟨s.messages ++ [(.assistant, "")], true, none⟩
  | .stream =>
      match s.messages.getLast? with
      | some (.assistant, content) =>
          { s with messages := s.messages.dropLast ++ [(.assistant, content ++ frame.content)] }
      | _ => s
  | .ended => { s with streaming := false }
  | .error => { s with streaming := false, error := some frame.content }

/-! ## Both sides of the socket -/

/-- `getMessages(conversationId)`, which the window calls when it opens. -/
inductive Loading
  | requested
  | answered (history : List Line)
  | refused
  | settled
  deriving DecidableEq, Repr

/-- The server, the window, and what is on its way between them.  `chunks` and `ending` are the
local state of the loop of the socket; `awaited` counts the questions whose last frame has not come. -/
structure State extends Chat.State where
  window : ChatState
  loading : Loading
  up : List String
  down : List ChatFrame
  chunks : List String
  ending : Bool
  awaited : ℕ

/-- What can happen next. -/
inductive Event
  | other (e : Chat.Event)
  | getMessages
  | reset
  | send (content : String)
  | receive (createdAt : Instant)
  | refuse (exc : String)
  | begin
  | stream (delta : String)
  | persist (tokensUsed : Option ℕ) (createdAt now : Instant)
  | finish
  | fail (exc : String)
  | deliver
  | close
  deriving DecidableEq, Repr

/-- The socket or request that an event of the server is about. -/
def socket? : Chat.Event → Option ℕ
  | .create _ _ => none
  | .connect k _ _ | .ensure k | .insert k | .send k _ _ | .history k | .reply k _ _ _ _ | .fail k
  | .close k | .request k _ _ | .list k | .clear k _ | .commitClear k => some k

/-- A message as the window has it. -/
def line (m : ChatMessage) : Line := (m.role, m.content)

/-- The last frame of an exchange. -/
def ChatFrame.IsLast (f : ChatFrame) : Prop := f.type = .ended ∨ f.type = .error

instance (f : ChatFrame) : Decidable f.IsLast := inferInstanceAs (Decidable (_ ∨ _))

/-- `Failed to process message: {exc}`. -/
def failure (exc : String) : ChatFrame := ⟨.error, "Failed to process message: " ++ exc⟩

variable (k : ℕ) (u c : String)

/-- One step.  The socket is `k`, the user `u` and the conversation `c`. -/
def step (s : State) : Event → Option State
  | .other e =>
      if socket? e = some k then none
      else (Chat.step s.toState e).map fun t => { s with toState := t }
  | .getMessages =>
      match s.loading with
      | .requested => some { s with
          loading := if (getConversation s.db c).any (·.userId = u) then
              .answered ((messagesOf s.db c).map line)
            else .refused }
      | _ => none
  | .reset =>
      match s.loading with
      | .answered history => some { s with window := initialChatState history, loading := .settled }
      | _ => none
  | .send content =>
      if content = "" then none
      else some { s with
        window := appendUserMessage s.window content
        up := s.up ++ [content]
        awaited := s.awaited + 1 }
  | .receive createdAt =>
      match s.up, s.ending with
      | content :: up, false =>
          (Chat.step s.toState (.send k content createdAt)).map fun t =>
            { s with toState := t, up := up }
      | _, _ => none
  | .refuse exc =>
      match s.up, s.ending, s.phase k with
      | _ :: up, false, some (.waiting _ _) =>
          some { s with up := up, down := s.down ++ [failure exc] }
      | _, _, _ => none
  | .begin =>
      (Chat.step s.toState (.history k)).map fun t =>
        { s with toState := t, chunks := [], down := s.down ++
          [⟨.start, "Processing your message..."⟩] }
  | .stream delta =>
      match s.phase k with
      | some (.streaming _ _) =>
          some { s with chunks := s.chunks ++ [delta], down := s.down ++ [⟨.stream, delta⟩] }
      | _ => none
  | .persist tokensUsed createdAt now =>
      (Chat.step s.toState (.reply k (String.join s.chunks) tokensUsed createdAt now)).map fun t =>
        { s with toState := t, ending := true }
  | .finish =>
      if s.ending then
        some { s with ending := false, down := s.down ++ [⟨.ended, "Response complete"⟩] }
      else none
  | .fail exc =>
      (Chat.step s.toState (.fail k)).map fun t =>
        { s with toState := t, down := s.down ++ [failure exc] }
  | .deliver =>
      match s.down with
      | f :: down => some { s with
          window := chatReducer s.window f
          down := down
          awaited := if f.IsLast then s.awaited - 1 else s.awaited }
      | [] => none
  | .close =>
      (Chat.step s.toState (.close k)).map fun t =>
        { s with toState := t, up := [], ending := false }

variable {k u c} {s t : State} {e : Event}

/-! ## The server's side of a step -/

/-- The other sockets and requests leave this one where it is. -/
theorem phase_of_step {s t : Chat.State} {e : Chat.Event} (h : Chat.step s e = some t)
    (hne : socket? e ≠ some k) : t.phase k = s.phase k := by
  have hk : ∀ {k'}, socket? e = some k' → k ≠ k' := by
    rintro k' he rfl
    exact hne he
  cases e with
  | create userId drawn =>
      obtain ⟨conversations, -, rfl⟩ := Option.map_eq_some_iff.mp h
      rfl
  | close k' =>
      cases h
      exact Function.update_of_ne (hk rfl) _ _
  | insert k' =>
      rw [Chat.step] at h
      split at h
      · split at h
        · cases h
          exact Function.update_of_ne (hk rfl) _ _
        · cases h
          exact Function.update_of_ne (hk rfl) _ _
      · cases h
  | connect k' _ _ | request k' _ _ =>
      rw [Chat.step] at h
      split at h
      · cases h
      · split_ifs at h
        · cases h
          rfl
        · cases h
          exact Function.update_of_ne (hk rfl) _ _
  | send k' _ _ =>
      rw [Chat.step] at h
      split at h
      · split_ifs at h
        cases h
        exact Function.update_of_ne (hk rfl) _ _
      · cases h
  | clear k' _ =>
      rw [Chat.step] at h
      split at h
      · cases h
      · cases h
        exact Function.update_of_ne (hk rfl) _ _
  | fail k' =>
      rw [Chat.step] at h
      split at h
      · cases h
        exact Function.update_of_ne (hk rfl) _ _
      · cases h
        exact Function.update_of_ne (hk rfl) _ _
      · cases h
  | ensure k' | history k' | reply k' _ _ _ _ | list k' | commitClear k' =>
      rw [Chat.step] at h
      split at h
      · cases h
        exact Function.update_of_ne (hk rfl) _ _
      · cases h

/-- A question is stored. -/
theorem send_eq_some {s t : Chat.State} {text : String} {createdAt : Instant}
    (h : Chat.step s (.send k text createdAt) = some t) (hp : ∀ p ∈ s.phase k, p = .waiting u c) :
    s.phase k = some (.waiting u c) ∧ t.phase k = some (.stored u c) ∧
      t.db = storeMessage s.db ⟨u, c, .user, text, none, createdAt⟩ (titled text)
        (key_titled text) := by
  rw [Chat.step] at h
  split at h
  · rename_i hphase
    cases hp _ hphase
    split_ifs at h
    cases h
    exact ⟨hphase, Function.update_self _ _ _, rfl⟩
  · cases h

/-- The history is read. -/
theorem history_eq_some {s t : Chat.State} (h : Chat.step s (.history k) = some t)
    (hp : s.phase k = some (.stored u c)) :
    t.phase k = some (.streaming u c) ∧ t.db = s.db := by
  rw [Chat.step, hp] at h
  cases h
  exact ⟨Function.update_self _ _ _, rfl⟩

/-- A reply is stored. -/
theorem reply_eq_some {s t : Chat.State} {text : String} {tokensUsed : Option ℕ}
    {createdAt now : Instant} (h : Chat.step s (.reply k text tokensUsed createdAt now) = some t)
    (hp : s.phase k = some (.streaming u c)) :
    t.phase k = some (.waiting u c) ∧ ∃ hkey,
      t.db = storeMessage s.db ⟨u, c, .assistant, text, tokensUsed, createdAt⟩ (answered now)
        hkey := by
  rw [Chat.step, hp] at h
  cases h
  exact ⟨Function.update_self _ _ _, fun _ => rfl, rfl⟩

/-- An exchange fails at the server. -/
theorem fail_eq_some {s t : Chat.State} (h : Chat.step s (.fail k) = some t) :
    ((∃ u c, s.phase k = some (.stored u c) ∧ t.phase k = some (.waiting u c)) ∨
      ∃ u c, s.phase k = some (.streaming u c) ∧ t.phase k = some (.waiting u c)) ∧
      t.db = s.db := by
  rw [Chat.step] at h
  split at h
  · rename_i u c hphase
    cases h
    exact ⟨.inl ⟨u, c, hphase, Function.update_self _ _ _⟩, rfl⟩
  · rename_i u c hphase
    cases h
    exact ⟨.inr ⟨u, c, hphase, Function.update_self _ _ _⟩, rfl⟩
  · cases h

/-- The last of a list that is sorted into place. -/
theorem orderedInsert_concat {α : Type*} {r : α → α → Prop} [DecidableRel r] {a x : α}
    (h : r a x) (l : List α) : (l ++ [x]).orderedInsert r a = l.orderedInsert r a ++ [x] := by
  induction l with
  | nil => simp [h]
  | cons b l ih =>
      rw [List.cons_append, List.orderedInsert, List.orderedInsert]
      split_ifs
      · rfl
      · rw [ih, List.cons_append]

/-- What is above the whole list is sorted to its end. -/
theorem insertionSort_concat {α : Type*} {r : α → α → Prop} [DecidableRel r] {x : α} {l : List α}
    (h : ∀ a ∈ l, r a x) : (l ++ [x]).insertionSort r = l.insertionSort r ++ [x] := by
  induction l with
  | nil => rfl
  | cons a l ih =>
      rw [List.cons_append, List.insertionSort_cons, List.insertionSort_cons,
        ih fun b hb => h b (List.mem_cons_of_mem a hb),
        orderedInsert_concat (h a List.mem_cons_self)]

/-- A message that is not older than the others of its conversation is the last one. -/
theorem messagesOf_storeMessage {db : Store} {m : ChatMessage}
    {f : ChatConversation → ChatConversation} {hf : ∀ c, conversationKey (f c) = conversationKey c}
    (hc : m.conversationId = c) (htime : ∀ m' ∈ messagesOf db c, m'.createdAt ≤ m.createdAt) :
    messagesOf (storeMessage db m f hf) c = messagesOf db c ++ [m] := by
  have habove : ∀ r ∈ db.messages.rows.filter (fun r => r.2.conversationId = c),
      messageLe r (db.messages.nextId, m) := by
    intro r hr
    have hmem : r.2 ∈ messagesOf db c :=
      List.mem_map_of_mem (List.mem_insertionSort _ |>.mpr hr)
    have hid := db.messages.below r (List.mem_of_mem_filter hr)
    rcases (htime r.2 hmem).lt_or_eq with hlt | heq
    · exact .inl hlt
    · exact .inr ⟨heq, hid.le⟩
  rw [messagesOf, messagesOf, storeMessage]
  dsimp only [Table.insert]
  rw [List.filter_append, List.filter_singleton, decide_eq_true hc, cond_true,
    insertionSort_concat habove, List.map_append, List.map_singleton]

end ProcureSignal.Chat.Window
