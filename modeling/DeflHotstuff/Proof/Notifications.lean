import DeflHotstuff.Construction.StoreTask
import Mathlib.Data.List.Count

namespace DeflHotstuff

section

variable {Key Value : Type} [DecidableEq Key]

namespace StoreCommand

/-- The value that a command writes to the key, if any. -/
def writes (key : Key) : StoreCommand Key Value → Option Value
  | .write written value => if written = key then some value else none
  | _ => none

/-- The value of the last write to the key. -/
def latest (key : Key) (commands : List (StoreCommand Key Value)) : Option Value :=
  commands.foldl (fun found command => (command.writes key).or found) none

end StoreCommand

namespace StoreTask

variable {task : StoreTask Key Value} {command : StoreCommand Key Value} {key : Key}
  {sender : Nat} {replies : List (StoreReply Value)}

/-- The senders that wait for the key. -/
def queue (task : StoreTask Key Value) (key : Key) : List Nat := (task.obligations key).getD []

/-- The replies that the sender got. -/
def answers (task : StoreTask Key Value) (sender : Nat) : List (StoreReply Value) :=
  task.replies.filter fun reply => reply.sender = sender

/-- The replies that a command causes. -/
def responses (task : StoreTask Key Value) : StoreCommand Key Value → List (StoreReply Value)
  | .write key value => (task.queue key).map fun sender => ⟨sender, some value, task.handled⟩
  | .read key => [⟨task.handled, task.db key, task.handled⟩]
  | .notifyRead key => (task.db key).toList.map fun value =>
      ⟨task.handled, some value, task.handled⟩

/-- A command changes the key that it writes and no other. -/
theorem db_step (task : StoreTask Key Value) (command : StoreCommand Key Value) (key : Key) :
    (task.step command).db key = (command.writes key).or (task.db key) := by
  cases command with
  | write written value =>
      have stored : (task.step (.write written value)).db =
          Function.update task.db written (some value) := by
        simp only [step]
        cases task.obligations written <;> rfl
      rw [stored, StoreCommand.writes]
      by_cases same : written = key
      · simp [same]
      · simp [same, Function.update_of_ne (Ne.symm same)]
  | read read => rfl
  | notifyRead read =>
      simp only [step]
      cases task.db read <;> rfl

/-- Each command is handled once. -/
theorem handled_step (task : StoreTask Key Value) (command : StoreCommand Key Value) :
    (task.step command).handled = task.handled + 1 := by
  cases command with
  | write written value =>
      simp only [step]
      cases task.obligations written <;> rfl
  | read read => rfl
  | notifyRead read =>
      simp only [step]
      cases task.db read <;> rfl

/-- The replies of a command come after the earlier ones. -/
theorem replies_step (task : StoreTask Key Value) (command : StoreCommand Key Value) :
    (task.step command).replies = task.replies ++ task.responses command := by
  cases command with
  | write written value =>
      simp only [step, responses, queue]
      cases task.obligations written <;> simp
  | read read => rfl
  | notifyRead read =>
      simp only [step, responses]
      cases task.db read <;> simp

/-- A write empties the queue of its key, and only a read of a missing key extends its queue. -/
theorem queue_step (task : StoreTask Key Value) (command : StoreCommand Key Value) (key : Key) :
    (task.step command).queue key = match command with
      | .write written _ => if written = key then [] else task.queue key
      | .read _ => task.queue key
      | .notifyRead read =>
          if read = key ∧ task.db key = none then task.queue key ++ [task.handled]
          else task.queue key := by
  cases command with
  | write written value =>
      simp only [step]
      by_cases same : written = key
      · subst same
        rw [if_pos rfl]
        split
        · rename_i empty
          simp [queue, empty]
        · simp [queue]
      · rw [if_neg same]
        split
        · rfl
        · simp [queue, Function.update_of_ne (Ne.symm same)]
  | read read => rfl
  | notifyRead read =>
      simp only [step]
      by_cases same : read = key
      · subst same
        split
        · rename_i absent
          simp [queue, absent]
        · rename_i value present
          simp [queue, present]
      · rw [if_neg fun both => same both.1]
        split
        · simp [queue, Function.update_of_ne (Ne.symm same)]
        · rfl

/-- The sender waits for the key alone and got no reply yet. -/
structure Waits (task : StoreTask Key Value) (key : Key) (sender : Nat) : Prop where
  handled : sender < task.handled
  unanswered : task.answers sender = []
  queued : (task.queue key).count sender = 1
  alone : ∀ other, other ≠ key → sender ∉ task.queue other

/-- The sender got these replies and waits no longer. -/
structure Settled (task : StoreTask Key Value) (sender : Nat) (replies : List (StoreReply Value)) :
    Prop where
  handled : sender < task.handled
  answered : task.answers sender = replies
  unqueued : ∀ key, sender ∉ task.queue key

/-- The obligations are for missing keys, and every queued sender waits. -/
structure Orderly (task : StoreTask Key Value) : Prop where
  absent : ∀ key, task.obligations key ≠ none → task.db key = none
  replied : ∀ reply ∈ task.replies, reply.sender < task.handled
  waits : ∀ key, ∀ sender ∈ task.queue key, task.Waits key sender

/-- A sender keeps its earlier answers. -/
theorem answers_step (task : StoreTask Key Value) (command : StoreCommand Key Value)
    (sender : Nat) : (task.step command).answers sender =
      task.answers sender ++ (task.responses command).filter fun reply =>
        reply.sender = sender := by
  rw [answers, replies_step, List.filter_append, answers]

/-- A reply goes to the sender of the command or to a sender in the queue of the written key. -/
theorem sender_of_response {reply : StoreReply Value} (inside : reply ∈ task.responses command) :
    reply.sender = task.handled ∨
      ∃ key, command.writes key ≠ none ∧ reply.sender ∈ task.queue key := by
  cases command with
  | write written value =>
      obtain ⟨sender, queued, rfl⟩ := List.mem_map.mp inside
      exact .inr ⟨written, by simp [StoreCommand.writes], queued⟩
  | read read =>
      cases List.mem_singleton.mp inside
      exact .inl rfl
  | notifyRead read =>
      obtain ⟨value, _, rfl⟩ := List.mem_map.mp inside
      exact .inl rfl

/-- A sender in the queue after a step was there before, or the step is its own. -/
theorem mem_queue_step (queued : sender ∈ (task.step command).queue key) :
    (sender ∈ task.queue key ∧ command.writes key = none) ∨
      (sender = task.handled ∧ command = .notifyRead key ∧ task.db key = none) := by
  rw [queue_step] at queued
  cases command with
  | write written value =>
      dsimp only at queued
      split at queued
      · cases queued
      · rename_i other
        exact .inl ⟨queued, if_neg other⟩
  | read read => exact .inl ⟨queued, rfl⟩
  | notifyRead read =>
      dsimp only at queued
      split at queued
      · rename_i missing
        rcases List.mem_append.mp queued with old | new
        · exact .inl ⟨old, rfl⟩
        · exact .inr ⟨List.mem_singleton.mp new, by rw [missing.1], missing.2⟩
      · exact .inl ⟨queued, rfl⟩

/-- A command without a reply to the sender leaves its answers. -/
theorem answers_step_of_unsent (unsent : ∀ reply ∈ task.responses command,
    reply.sender ≠ sender) : (task.step command).answers sender = task.answers sender := by
  have nothing : ((task.responses command).filter fun reply => reply.sender = sender) = [] := by
    apply List.filter_eq_nil_iff.mpr
    intro reply inside same
    exact unsent reply inside (of_decide_eq_true same)
  rw [answers_step, nothing, List.append_nil]

/-- An obligation after a step was there before, or the step adds it for a missing key. -/
theorem obligations_step (obliged : (task.step command).obligations key ≠ none) :
    (task.obligations key ≠ none ∧ command.writes key = none) ∨
      (command = .notifyRead key ∧ task.db key = none) := by
  cases command with
  | write written value =>
      simp only [step] at obliged
      by_cases same : written = key
      · subst same
        split at obliged
        · rename_i empty
          exact absurd empty obliged
        · simp at obliged
      · apply Or.inl
        constructor
        · split at obliged
          · exact obliged
          · simpa [Function.update_of_ne (Ne.symm same)] using obliged
        · exact if_neg same
  | read read => exact .inl ⟨obliged, rfl⟩
  | notifyRead read =>
      simp only [step] at obliged
      split at obliged
      · rename_i absent
        by_cases same : read = key
        · subst same
          exact .inr ⟨rfl, absent⟩
        · apply Or.inl
          exact ⟨by simpa [Function.update_of_ne (Ne.symm same)] using obliged, rfl⟩
      · exact .inl ⟨obliged, rfl⟩

/-- A settled sender gets no other reply. -/
theorem Settled.step (settled : task.Settled sender replies)
    (command : StoreCommand Key Value) : (task.step command).Settled sender replies where
  handled := by
    rw [handled_step]
    exact Nat.lt_succ_of_lt settled.handled
  answered := by
    rw [answers_step_of_unsent, settled.answered]
    intro reply inside toSender
    rcases sender_of_response inside with own | ⟨key, _, queued⟩
    · exact absurd settled.handled (by omega)
    · exact settled.unqueued key (toSender ▸ queued)
  unqueued key queued := by
    rcases mem_queue_step queued with ⟨old, _⟩ | ⟨own, _⟩
    · exact settled.unqueued key old
    · exact absurd settled.handled (by omega)

/-- A sender waits on while its key is not written. -/
theorem Waits.step (waits : task.Waits key sender) (unwritten : command.writes key = none) :
    (task.step command).Waits key sender where
  handled := by
    rw [handled_step]
    exact Nat.lt_succ_of_lt waits.handled
  unanswered := by
    rw [answers_step_of_unsent, waits.unanswered]
    intro reply inside toSender
    rcases sender_of_response inside with own | ⟨other, written, queued⟩
    · exact absurd waits.handled (by omega)
    · apply waits.alone other
      · rintro rfl
        exact written unwritten
      · exact toSender ▸ queued
  queued := by
    have own : sender ≠ task.handled := Nat.ne_of_lt waits.handled
    rw [queue_step]
    cases command with
    | write written value =>
        have other : written ≠ key := by
          intro same
          simp [StoreCommand.writes, same] at unwritten
        simp only [if_neg other, waits.queued]
    | read read => exact waits.queued
    | notifyRead read =>
        dsimp only
        split
        · rw [List.count_append, waits.queued, List.count_eq_zero_of_not_mem]
          simpa using own
        · exact waits.queued
  alone other different queued := by
    rcases mem_queue_step queued with ⟨old, _⟩ | ⟨own, _⟩
    · exact waits.alone other different old
    · exact absurd waits.handled (by omega)

/-- The first write to its key answers a sender once. -/
theorem Waits.write (waits : task.Waits key sender) (value : Value) :
    (task.step (.write key value)).Settled sender [⟨sender, some value, task.handled⟩] where
  handled := by
    rw [handled_step]
    exact Nat.lt_succ_of_lt waits.handled
  answered := by
    rw [answers_step, waits.unanswered, List.nil_append, responses, List.filter_map]
    have chosen : (task.queue key).filter ((fun reply : StoreReply Value =>
        decide (reply.sender = sender)) ∘ fun sender => ⟨sender, some value, task.handled⟩) =
        List.replicate ((task.queue key).count sender) sender :=
      (task.queue key).filter_eq sender
    rw [chosen, waits.queued]
    rfl
  unqueued other queued := by
    rcases mem_queue_step queued with ⟨old, unwritten⟩ | ⟨_, impossible, _⟩
    · by_cases same : other = key
      · simp [StoreCommand.writes, same] at unwritten
      · exact waits.alone other same old
    · cases impossible

omit [DecidableEq Key] in
/-- The sender of the next command got no reply and is in no queue. -/
theorem Orderly.fresh (orderly : task.Orderly) : task.answers task.handled = [] ∧
    ∀ key, task.handled ∉ task.queue key := by
  constructor
  · apply List.filter_eq_nil_iff.mpr
    intro reply inside same
    have early := orderly.replied reply inside
    rw [of_decide_eq_true same] at early
    exact Nat.lt_irrefl _ early
  · intro key queued
    exact absurd (orderly.waits key _ queued).handled (Nat.lt_irrefl _)

/-- A read of a missing key makes its sender wait. -/
theorem Orderly.notifyRead_absent (orderly : task.Orderly) (absent : task.db key = none) :
    (task.step (.notifyRead key)).Waits key task.handled where
  handled := by
    rw [handled_step]
    exact Nat.lt_succ_self _
  unanswered := by
    rw [answers_step, orderly.fresh.1]
    simp [responses, absent]
  queued := by
    rw [queue_step]
    simp [absent, List.count_eq_zero_of_not_mem (orderly.fresh.2 key)]
  alone other different queued := by
    rcases mem_queue_step queued with ⟨old, _⟩ | ⟨_, same, _⟩
    · exact orderly.fresh.2 other old
    · cases same
      exact different rfl

/-- A command that reads a present key, or that reads without waiting, is answered at once. -/
theorem Orderly.answered (orderly : task.Orderly) {response : Option Value}
    (responds : task.responses command = [⟨task.handled, response, task.handled⟩])
    (unwaiting : ∀ key, command = .notifyRead key → task.db key ≠ none) :
    (task.step command).Settled task.handled [⟨task.handled, response, task.handled⟩] where
  handled := by
    rw [handled_step]
    exact Nat.lt_succ_self _
  answered := by
    rw [answers_step, orderly.fresh.1, responds]
    simp
  unqueued key queued := by
    rcases mem_queue_step queued with ⟨old, _⟩ | ⟨_, same, absent⟩
    · exact orderly.fresh.2 key old
    · exact unwaiting key same absent

/-- A command keeps the obligations in order. -/
theorem Orderly.step (orderly : task.Orderly) (command : StoreCommand Key Value) :
    (task.step command).Orderly where
  absent key obliged := by
    rw [db_step]
    rcases obligations_step obliged with ⟨old, unwritten⟩ | ⟨rfl, absent⟩
    · rw [unwritten, orderly.absent key old]
      rfl
    · exact absent
  replied reply inside := by
    rw [handled_step]
    rw [replies_step] at inside
    rcases List.mem_append.mp inside with old | new
    · exact Nat.lt_succ_of_lt (orderly.replied reply old)
    · rcases sender_of_response new with own | ⟨key, _, queued⟩
      · omega
      · exact Nat.lt_succ_of_lt (orderly.waits key _ queued).handled
  waits key sender queued := by
    rcases mem_queue_step queued with ⟨old, unwritten⟩ | ⟨rfl, rfl, absent⟩
    · exact (orderly.waits key sender old).step unwritten
    · exact orderly.notifyRead_absent absent

omit [DecidableEq Key] in
/-- The new store has no obligation. -/
theorem new_orderly : (new : StoreTask Key Value).Orderly :=
  ⟨fun _ obliged => absurd rfl obliged, fun _ inside => (nomatch inside),
    fun _ _ queued => (nomatch queued)⟩

/-- A run of two lists of commands is one run after the other. -/
theorem run_append (first second : List (StoreCommand Key Value)) :
    run (first ++ second) = second.foldl step (run first) :=
  List.foldl_append

/-- The obligations of every run are in order. -/
theorem run_orderly (commands : List (StoreCommand Key Value)) : (run commands).Orderly := by
  induction commands using List.reverseRecOn with
  | nil => exact new_orderly
  | append_singleton commands command ih =>
      rw [run_append]
      exact ih.step command

/-- A run handles as many commands as it is given. -/
theorem foldl_handled (task : StoreTask Key Value) (commands : List (StoreCommand Key Value)) :
    (commands.foldl step task).handled = task.handled + commands.length := by
  induction commands generalizing task with
  | nil => rfl
  | cons command rest ih =>
      rw [List.foldl_cons, ih, handled_step, List.length_cons]
      omega

/-- The number of a command is the number of commands before it. -/
theorem run_handled (commands : List (StoreCommand Key Value)) :
    (run commands).handled = commands.length := by
  rw [run, foldl_handled]
  exact Nat.zero_add _

/-- The database maps each key to the value of its last write. -/
theorem run_db (commands : List (StoreCommand Key Value)) (key : Key) :
    (run commands).db key = StoreCommand.latest key commands := by
  induction commands using List.reverseRecOn with
  | nil => rfl
  | append_singleton commands command ih =>
      rw [run_append, List.foldl_cons, List.foldl_nil, db_step, ih]
      simp [StoreCommand.latest]

/-- An answered sender gets nothing more. -/
theorem Settled.foldl (settled : task.Settled sender replies)
    (commands : List (StoreCommand Key Value)) :
    (commands.foldl StoreTask.step task).Settled sender replies := by
  induction commands generalizing task with
  | nil => exact settled
  | cons command rest ih => exact ih (settled.step command)

/-- A sender waits as long as the key is not written. -/
theorem Waits.foldl (waits : task.Waits key sender) {commands : List (StoreCommand Key Value)}
    (unwritten : ∀ command ∈ commands, command.writes key = none) :
    (commands.foldl StoreTask.step task).Waits key sender := by
  induction commands generalizing task with
  | nil => exact waits
  | cons command rest ih =>
      apply ih (waits.step (unwritten command List.mem_cons_self))
      intro later inside
      exact unwritten later (List.mem_cons_of_mem _ inside)

/-- Obligations are for missing keys only. A read that waits for its key is answered once: at once
if the key is there, else by the first later write to it, together with all others that wait for
the key. A plain read returns the value of the last write. -/
theorem notifyRead_answered (commands : List (StoreCommand Key Value)) :
    (∀ key, (run commands).obligations key ≠ none → (run commands).db key = none) ∧
    (∀ before key after, commands = before ++ .notifyRead key :: after →
      (∀ value, StoreCommand.latest key before = some value →
        (run commands).Settled before.length [⟨before.length, some value, before.length⟩]) ∧
      (StoreCommand.latest key before = none →
        (∀ between value rest, after = between ++ .write key value :: rest →
          (∀ command ∈ between, command.writes key = none) →
            (run commands).Settled before.length
              [⟨before.length, some value, before.length + 1 + between.length⟩]) ∧
        ((∀ command ∈ after, command.writes key = none) →
          (run commands).Waits key before.length))) ∧
    (∀ before key value after, commands = before ++ .write key value :: after →
      ∀ sender ∈ (run before).queue key,
        (run commands).Settled sender [⟨sender, some value, before.length⟩]) ∧
    (∀ before key after, commands = before ++ .read key :: after →
      (run commands).Settled before.length
        [⟨before.length, StoreCommand.latest key before, before.length⟩]) := by
  refine ⟨(run_orderly commands).absent, ?_, ?_, ?_⟩
  · rintro before key after rfl
    have orderly := run_orderly before
    rw [run_append, List.foldl_cons]
    rw [← run_handled before, ← run_db before]
    constructor
    · intro value present
      apply Settled.foldl
      apply orderly.answered
      · simp [responses, present]
      · rintro other same
        cases same
        simp [present]
    · intro absent
      have waits := orderly.notifyRead_absent absent
      constructor
      · rintro between value rest rfl unwritten
        rw [List.foldl_append, List.foldl_cons]
        apply Settled.foldl
        have answered := (waits.foldl unwritten).write value
        rwa [foldl_handled, handled_step] at answered
      · exact waits.foldl
  · rintro before key value after rfl sender queued
    rw [run_append, List.foldl_cons, ← run_handled before]
    apply Settled.foldl
    exact ((run_orderly before).waits key sender queued).write value
  · rintro before key after rfl
    rw [run_append, List.foldl_cons, ← run_handled before, ← run_db before]
    apply Settled.foldl
    apply (run_orderly before).answered rfl
    intro other same
    cases same

/-- The sender was answered if the key is there, and waits for it otherwise. -/
def Follows (task : StoreTask Key Value) (key : Key) (sender : Nat) : Prop :=
  ((∃ reply, task.Settled sender [reply]) ∧ (task.db key).isSome) ∨
    (task.Waits key sender ∧ task.db key = none)

/-- A command keeps the sender answered or waiting. -/
theorem Follows.step (follows : task.Follows key sender) (command : StoreCommand Key Value) :
    (task.step command).Follows key sender := by
  rw [Follows, db_step]
  rcases follows with ⟨⟨reply, settled⟩, present⟩ | ⟨waits, absent⟩
  · apply Or.inl
    refine ⟨⟨reply, settled.step command⟩, ?_⟩
    rw [Option.isSome_or, present, Bool.or_true]
  · by_cases unwritten : command.writes key = none
    · apply Or.inr
      exact ⟨waits.step unwritten, by rw [unwritten, absent]; rfl⟩
    · apply Or.inl
      cases command with
      | write written value =>
          by_cases same : written = key
          · subst same
            exact ⟨⟨_, waits.write value⟩, by simp [StoreCommand.writes]⟩
          · exact absurd (if_neg same) unwritten
      | read read => exact absurd rfl unwritten
      | notifyRead read => exact absurd rfl unwritten

/-- A future that waits for a key is ready once the store holds the key. -/
theorem answered_iff_present (before after : List (StoreCommand Key Value)) (key : Key) :
    (∃ reply, (run (before ++ .notifyRead key :: after)).Settled before.length [reply]) ↔
      ((run (before ++ .notifyRead key :: after)).db key).isSome := by
  have asked : ((run before).step (.notifyRead key)).Follows key before.length := by
    rw [← run_handled before, Follows, db_step]
    cases found : (run before).db key with
    | none => exact .inr ⟨(run_orderly before).notifyRead_absent found, rfl⟩
    | some value =>
        have responds : (run before).responses (.notifyRead key) =
            [⟨(run before).handled, some value, (run before).handled⟩] := by
          simp [responses, found]
        apply Or.inl
        refine ⟨⟨_, (run_orderly before).answered responds ?_⟩, rfl⟩
        rintro other same
        cases same
        simp [found]
  have follows : (run (before ++ .notifyRead key :: after)).Follows key before.length := by
    rw [run_append, List.foldl_cons]
    generalize (run before).step (.notifyRead key) = task at asked
    induction after generalizing task with
    | nil => exact asked
    | cons command rest ih => exact ih _ (asked.step command)
  rcases follows with ⟨settled, present⟩ | ⟨waits, absent⟩
  · simp [settled, present]
  · rw [absent]
    simp only [Option.isSome_none, Bool.false_eq_true, iff_false, not_exists]
    intro reply settled
    apply settled.unqueued key
    exact List.count_pos_iff.mp (waits.queued ▸ Nat.one_pos)

end StoreTask

end

/-- The store of the consensus is the database of its task. -/
theorem Store.read_run [Crypto] (commands : List (StoreCommand Digest Value)) (key : Digest) :
    (commands.foldl Store.apply Store.new).read key = (StoreTask.run commands).db key := by
  induction commands using List.reverseRecOn with
  | nil => rfl
  | append_singleton commands command ih =>
      rw [List.foldl_append, StoreTask.run_append]
      simp only [List.foldl_cons, List.foldl_nil]
      rw [StoreTask.db_step, ← ih]
      cases command with
      | write written value =>
          rw [Store.apply, Store.read_write, StoreCommand.writes]
          by_cases same : key = written
          · simp [same]
          · simp [same, Ne.symm same]
      | read read => rfl
      | notifyRead read => rfl

end DeflHotstuff
