import Mathlib.Data.List.Induction
import PluginBridge.Proofs.Outcome
import PluginBridge.Stream.Channel
namespace PluginBridge

def StreamLine.message? : StreamLine → Option Message
  | .text line => Message.parse? (Text.trim line)
  | .garbled => none

inductive Interleaved {α : Type} : List α → List α → List α → Prop where
  | nil : Interleaved [] [] []
  | left {xs ys both : List α} (before : Interleaved xs ys both) (x : α) : Interleaved (xs ++ [x]) ys (both ++ [x])
  | right {xs ys both : List α} (before : Interleaved xs ys both) (y : α) : Interleaved xs (ys ++ [y]) (both ++ [y])

theorem Interleaved.lefts {α : Type} {xs ys both : List α} (before : Interleaved xs ys both) (more : List α) :
    Interleaved (xs ++ more) ys (both ++ more) := by
  induction more generalizing xs both with
  | nil => simpa using before
  | cons x more ih => simpa using ih (before.left x)

theorem Interleaved.rights {α : Type} {xs ys both : List α} (before : Interleaved xs ys both) (more : List α) :
    Interleaved xs (ys ++ more) (both ++ more) := by
  induction more generalizing ys both with
  | nil => simpa using before
  | cons y more ih => simpa using ih (before.right y)

namespace Channel
variable {α β : Type} {wanted : Message → Option α} {channel : Channel} {line : StreamLine}
  {lines more : List StreamLine}

def refusalOf? : Message → Option String
  | .callback callback => some (Response.failed callback.id refusal).line
  | .request _ | .response _ => none

def held (kind : Message → Option β) (lines : List StreamLine) : List β :=
  lines.filterMap fun line => line.message?.bind kind

theorem held_append (kind : Message → Option β) (lines more : List StreamLine) :
    held kind (lines ++ more) = held kind lines ++ held kind more :=
  List.filterMap_append

def ends (wanted : Message → Option α) : StreamLine → Option (Except StreamError α)
  | .text line => ((Message.parse? (Text.trim line)).bind wanted).map .ok
  | .garbled => some (.error .garbled)

def pass (channel : Channel) (line : StreamLine) : Channel :=
  match line.message? with
  | some message => channel.setAside message
  | none => channel

theorem await_passes (goesOn : ends wanted line = none) :
    await wanted (line :: lines) channel = await wanted lines (channel.pass line) := by
  cases line with
  | garbled => cases goesOn
  | text text =>
    rw [await, pass, StreamLine.message?]
    cases parsed : Message.parse? (Text.trim text) with
    | none => rfl
    | some message =>
      have unwanted : wanted message = none := by simpa [ends, parsed] using goesOn
      simp only [unwanted]

theorem ends_text {text : String} {outcome : Except StreamError α} (stops : ends wanted (.text text) = some outcome) :
    ∃ message a, Message.parse? (Text.trim text) = some message ∧ wanted message = some a ∧ outcome = .ok a := by
  rw [ends, Option.map_eq_some_iff] at stops
  obtain ⟨a, found, rfl⟩ := stops
  obtain ⟨message, parsed, fits⟩ := Option.bind_eq_some_iff.mp found
  exact ⟨message, a, parsed, fits, rfl⟩

theorem await_ends {outcome : Except StreamError α} (stops : ends wanted line = some outcome) :
    answered (await wanted (line :: lines) channel) = outcome.map some ∧
      left (await wanted (line :: lines) channel) = { channel with input := lines } := by
  cases line with
  | garbled =>
    cases stops
    exact ⟨rfl, rfl⟩
  | text text =>
    obtain ⟨message, a, parsed, fits, rfl⟩ := ends_text stops
    rw [await, parsed]
    simp only [fits]
    exact ⟨rfl, rfl⟩

structure Passed (channel after : Channel) (lines : List StreamLine) : Prop where
  queued : after.queued = channel.queued ++ held requestOf? lines
  sent : after.sent = channel.sent ++ held refusalOf? lines
  last : after.lastCallback = channel.lastCallback

theorem pass_passed (channel : Channel) (line : StreamLine) : Passed channel (channel.pass line) [line] := by
  unfold pass
  cases parsed : line.message? with
  | none => exact ⟨by simp [held, parsed], by simp [held, parsed], rfl⟩
  | some message =>
    cases message <;>
      exact ⟨by simp [held, parsed, setAside, requestOf?, writeLine],
        by simp [held, parsed, setAside, refusalOf?, writeLine], rfl⟩

theorem Passed.trans {middle after : Channel} (first : Passed channel middle lines)
    (second : Passed middle after more) : Passed channel after (lines ++ more) where
  queued := by rw [second.queued, first.queued, held_append, List.append_assoc]
  sent := by rw [second.sent, first.sent, held_append, List.append_assoc]
  last := second.last.trans first.last

theorem ends_cases {outcome : Except StreamError α} (stops : ends wanted line = some outcome) :
    (line.message? = none ∧ outcome = .error .garbled) ∨
      ∃ message a, line.message? = some message ∧ wanted message = some a ∧ outcome = .ok a := by
  cases line with
  | garbled =>
    cases stops
    exact .inl ⟨rfl, rfl⟩
  | text text =>
    obtain ⟨message, a, parsed, fits, rfl⟩ := ends_text stops
    exact .inr ⟨message, a, parsed, fits, rfl⟩

theorem held_passed (goesOn : ends wanted line = none) : held wanted (line :: lines) = held wanted lines := by
  refine List.filterMap_cons_none ?_
  cases line with
  | garbled => cases goesOn
  | text text =>
    rw [ends, Option.map_eq_none_iff] at goesOn
    exact goesOn

theorem await_answered (wanted : Message → Option α) (lines : List StreamLine) (channel : Channel) :
    answered (await wanted lines channel) =
      ((lines.findSome? (ends wanted)).map (Except.map some)).getD (.ok none) := by
  induction lines generalizing channel with
  | nil => rfl
  | cons line lines ih =>
    rw [List.findSome?_cons]
    cases ending : ends wanted line with
    | none => rw [await_passes ending, ih]
    | some outcome => exact (await_ends ending).1

theorem await_course (wanted : Message → Option α) (lines : List StreamLine) (channel : Channel) :
    ∃ skipped stop, lines = skipped ++ stop ++ (left (await wanted lines channel)).input ∧
      Passed channel (left (await wanted lines channel)) skipped ∧
      held wanted skipped = [] ∧
      (∀ line ∈ stop, ∀ message, line.message? = some message → (wanted message).isSome) ∧
      held wanted stop = ((answered (await wanted lines channel)).toOption.bind id).toList := by
  induction lines generalizing channel with
  | nil =>
    refine ⟨[], [], rfl, ⟨?_, ?_, rfl⟩, rfl, List.forall_mem_nil _, rfl⟩
    · simp [await, left, held]
    · simp [await, left, held]
  | cons line lines ih =>
    cases ending : ends wanted line with
    | none =>
      obtain ⟨skipped, stop, split, passed, quiet, stops, found⟩ := ih (channel.pass line)
      rw [await_passes ending]
      exact ⟨line :: skipped, stop, by rw [List.cons_append, List.cons_append, ← split],
        (pass_passed channel line).trans passed, (held_passed ending).trans quiet, stops, found⟩
    | some outcome =>
      obtain ⟨result, state⟩ := @await_ends _ _ channel _ lines _ ending
      rw [state, result]
      refine ⟨[], [line], rfl, ⟨by simp [held], by simp [held], rfl⟩, rfl, ?_⟩
      rcases ends_cases ending with ⟨silent, rfl⟩ | ⟨message, a, parsed, fits, rfl⟩
      · simp [held, silent, Except.map, Except.toOption]
      · simp [held, parsed, fits, Except.map, Except.toOption]

-- What a call did: the lines that it read, the commands that it gave away and its own lines among those that it wrote.
structure Step (before after : Channel) (read : List StreamLine) (given : List Request) (own : List String) : Prop where
  input : before.input = read ++ after.input
  commands : before.queued ++ held requestOf? read = given ++ after.queued
  sent : after.sent = before.sent ++ own ++ held refusalOf? read

theorem held_stop {kind : Message → Option β} (apart : ∀ message, (wanted message).isSome → kind message = none)
    {stop : List StreamLine}
    (stops : ∀ line ∈ stop, ∀ message, line.message? = some message → (wanted message).isSome) :
    held kind stop = [] := by
  refine List.filterMap_eq_nil_iff.mpr fun line within => ?_
  cases parsed : line.message? with
  | none => rfl
  | some message => exact apart message (stops line within message parsed)

def given (result : EStateM.Result StreamError Channel (Option Request)) : List Request :=
  ((answered result).toOption.bind id).toList

theorem nextRequest_step (channel : Channel) : ∃ read,
    Step channel (left (nextRequest channel)) read (given (nextRequest channel)) [] ∧
      (left (nextRequest channel)).lastCallback = channel.lastCallback := by
  obtain ⟨input, queued, last, sent⟩ := channel
  cases queued with
  | cons request rest =>
    exact ⟨[], ⟨rfl, List.append_nil _, by simp [nextRequest, held, left]⟩, rfl⟩
  | nil =>
    obtain ⟨skipped, stop, split, passed, quiet, stops, found⟩ :=
      await_course requestOf? input ⟨input, [], last, sent⟩
    have same : nextRequest ⟨input, [], last, sent⟩ = await requestOf? input ⟨input, [], last, sent⟩ := rfl
    have unasked : held refusalOf? stop = [] := held_stop (fun message _ => by cases message <;> trivial) stops
    rw [← same] at split passed
    refine ⟨skipped ++ stop, ⟨split, ?_, ?_⟩, passed.last⟩
    · rw [passed.queued, held_append, quiet, found, given, same]
      exact (List.append_nil _).symm
    · rw [passed.sent, held_append, unasked]
      simp

theorem await_request (lines : List StreamLine) (channel : Channel) :
    answered (await requestOf? lines channel) = .ok (held requestOf? lines).head? ∨
      answered (await requestOf? lines channel) = .error .garbled ∧ .garbled ∈ lines := by
  induction lines generalizing channel with
  | nil => exact .inl rfl
  | cons line lines ih =>
    cases ending : ends requestOf? line with
    | none =>
      rw [await_passes ending, held_passed ending]
      exact (ih _).imp id fun ⟨failed, among⟩ => ⟨failed, List.mem_cons_of_mem _ among⟩
    | some outcome =>
      rw [(await_ends ending).1]
      cases line with
      | garbled =>
        cases ending
        exact .inr ⟨rfl, List.mem_cons_self⟩
      | text text =>
        obtain ⟨message, request, parsed, fits, rfl⟩ := ends_text ending
        have first : held requestOf? (.text text :: lines) = request :: held requestOf? lines :=
          List.filterMap_cons_some (by rw [StreamLine.message?, parsed, Option.bind_some, fits])
        rw [first]
        exact .inl rfl

theorem nextRequest_answered (channel : Channel) :
    answered (nextRequest channel) = .ok (channel.queued ++ held requestOf? channel.input).head? ∨
      answered (nextRequest channel) = .error .garbled ∧ .garbled ∈ channel.input := by
  obtain ⟨input, queued, last, sent⟩ := channel
  cases queued with
  | cons request rest => exact .inl rfl
  | nil => exact await_request input _

def asking (name : String) (data : Json) (channel : Channel) : Channel :=
  { channel with lastCallback := channel.lastCallback + 1 }.writeLine
    (Callback.line ⟨channel.lastCallback + 1, name, data⟩)

theorem callback_await (name : String) (data : Json) (channel : Channel) :
    left (Channel.callback name data channel) =
        left (await (outcomeOf? (channel.lastCallback + 1)) channel.input (channel.asking name data)) ∧
      answered (Channel.callback name data channel) =
        (channel.input.findSome? (ends (outcomeOf? (channel.lastCallback + 1)))).getD (.error .disconnected) := by
  have asked : ask name data channel = .ok (channel.lastCallback + 1) (channel.asking name data) := rfl
  have waited := await_answered (outcomeOf? (channel.lastCallback + 1)) channel.input (channel.asking name data)
  have waits : awaitAnswer (channel.lastCallback + 1) (channel.asking name data) =
      await (outcomeOf? (channel.lastCallback + 1)) channel.input (channel.asking name data) := rfl
  rw [Channel.callback, bind_done asked]
  cases found : channel.input.findSome? (ends (outcomeOf? (channel.lastCallback + 1))) with
  | none =>
    rw [found] at waited
    have done := answered_done waited
    rw [bind_done (waits.trans done), done]
    exact ⟨rfl, rfl⟩
  | some outcome =>
    rw [found] at waited
    cases outcome with
    | ok outcome =>
      have done := answered_done waited
      rw [bind_done (waits.trans done), done]
      exact ⟨rfl, rfl⟩
    | error e =>
      have failed := answered_failed waited
      rw [bind_failed (waits.trans failed), failed]
      exact ⟨rfl, rfl⟩

theorem callback_step (name : String) (data : Json) (channel : Channel) : ∃ read,
    Step channel (left (Channel.callback name data channel)) read []
        [Callback.line ⟨channel.lastCallback + 1, name, data⟩] ∧
      (left (Channel.callback name data channel)).lastCallback = channel.lastCallback + 1 := by
  obtain ⟨same, -⟩ := callback_await name data channel
  obtain ⟨skipped, stop, split, passed, -, stops, -⟩ :=
    await_course (outcomeOf? (channel.lastCallback + 1)) channel.input (channel.asking name data)
  rw [← same] at split passed
  have uncommanded : held requestOf? stop = [] := held_stop (fun message _ => by cases message <;> trivial) stops
  have unasked : held refusalOf? stop = [] := held_stop (fun message _ => by cases message <;> trivial) stops
  refine ⟨skipped ++ stop, ⟨split, ?_, ?_⟩, passed.last⟩
  · rw [passed.queued, held_append, uncommanded, List.append_nil]
    rfl
  · rw [passed.sent, held_append, unasked, List.append_nil]
    rfl

end Channel

inductive ChannelCall where
  | next
  | callback (name : String) (data : Json)
  | respond (id : Nat) (outcome : Except String Json)

namespace ChannelCall

def isCallback : ChannelCall → Bool
  | .callback .. => true
  | .next | .respond .. => false

def own (asked : Nat) : ChannelCall → List String
  | .next => []
  | .callback name data => [Callback.line ⟨asked + 1, name, data⟩]
  | .respond id outcome => [(Response.ofOutcome id outcome).line]

-- The lines that calls write of their own; their questions are numbered on from those that were asked before.
def ownLines : Nat → List ChannelCall → List String
  | _, [] => []
  | asked, call :: calls => call.own asked ++ ownLines (asked + [call].countP isCallback) calls

theorem ownLines_snoc (asked : Nat) (calls : List ChannelCall) (call : ChannelCall) :
    ownLines asked (calls ++ [call]) = ownLines asked calls ++ call.own (asked + calls.countP isCallback) := by
  induction calls generalizing asked with
  | nil => simp [ownLines]
  | cons first calls ih =>
    rw [List.cons_append, ownLines, ih, ownLines, List.append_assoc, Nat.add_assoc, ← List.countP_append,
      List.singleton_append]

end ChannelCall

structure Talk where
  channel : Channel
  returned : List Request

namespace Talk
open Channel (held requestOf? refusalOf?)

def make (talk : Talk) : ChannelCall → Talk
  | .next =>
    let result := Channel.nextRequest talk.channel
    ⟨left result, talk.returned ++ Channel.given result⟩
  | .callback name data => ⟨left (Channel.callback name data talk.channel), talk.returned⟩
  | .respond id outcome => ⟨left (Channel.respond id outcome talk.channel), talk.returned⟩

def run (input : List StreamLine) (calls : List ChannelCall) : Talk :=
  calls.foldl make ⟨.ofInput input, []⟩

theorem make_step (talk : Talk) (call : ChannelCall) : ∃ read given,
    Channel.Step talk.channel (talk.make call).channel read given (call.own talk.channel.lastCallback) ∧
      (talk.make call).returned = talk.returned ++ given ∧
      (talk.make call).channel.lastCallback = talk.channel.lastCallback + [call].countP ChannelCall.isCallback := by
  cases call with
  | next =>
    obtain ⟨read, step, last⟩ := Channel.nextRequest_step talk.channel
    exact ⟨read, _, step, rfl, last⟩
  | callback name data =>
    obtain ⟨read, step, last⟩ := Channel.callback_step name data talk.channel
    exact ⟨read, [], step, (List.append_nil _).symm, last⟩
  | respond id outcome =>
    exact ⟨[], [], ⟨rfl, List.append_nil _, (List.append_nil _).symm⟩, (List.append_nil _).symm, rfl⟩

-- A channel after some calls: every command of the stream is with the holder, in the queue or still to be read.
structure Kept (input : List StreamLine) (calls : List ChannelCall) (talk : Talk) : Prop where
  commands : held requestOf? input = talk.returned ++ (talk.channel.queued ++ held requestOf? talk.channel.input)
  last : talk.channel.lastCallback = calls.countP ChannelCall.isCallback
  sent : ∃ read, input = read ++ talk.channel.input ∧
    Interleaved (ChannelCall.ownLines 0 calls) (held refusalOf? read) talk.channel.sent

theorem Kept.make {input : List StreamLine} {calls : List ChannelCall} {talk : Talk} (kept : Kept input calls talk)
    (call : ChannelCall) : Kept input (calls ++ [call]) (talk.make call) := by
  obtain ⟨read, given, step, returned, last⟩ := talk.make_step call
  obtain ⟨before, split, order⟩ := kept.sent
  refine ⟨?_, by rw [last, kept.last, List.countP_append], before ++ read, ?_, ?_⟩
  · rw [kept.commands, step.input, Channel.held_append, ← List.append_assoc talk.channel.queued, step.commands,
      returned, List.append_assoc, List.append_assoc]
  · rw [split, step.input, List.append_assoc]
  · rw [step.sent, ChannelCall.ownLines_snoc, Nat.zero_add, ← kept.last, Channel.held_append]
    exact (order.lefts _).rights _

theorem run_kept (input : List StreamLine) (calls : List ChannelCall) : Kept input calls (run input calls) := by
  induction calls using List.reverseRecOn with
  | nil => exact ⟨rfl, rfl, [], rfl, .nil⟩
  | append_singleton calls call ih =>
    rw [run, List.foldl_concat]
    exact ih.make call

end Talk

-- However calls follow on each other, the holder has the first commands of the stream and gets the next one next; a
-- question takes the next number and the first answer with that number after it; and what is written are the lines of
-- the calls, with one refusal for each question that was read.
theorem Channel.commands_kept (input : List StreamLine) (calls : List ChannelCall) :
    (Talk.run input calls).returned <+: held requestOf? input ∧
    (answered (nextRequest (Talk.run input calls).channel) =
        .ok (held requestOf? input)[(Talk.run input calls).returned.length]? ∨
      answered (nextRequest (Talk.run input calls).channel) = .error .garbled ∧
        .garbled ∈ (Talk.run input calls).channel.input) ∧
    (∀ name data, answered (callback name data (Talk.run input calls).channel) =
      ((Talk.run input calls).channel.input.findSome?
        (ends (outcomeOf? (calls.countP ChannelCall.isCallback + 1)))).getD (.error .disconnected)) ∧
    ∃ read, input = read ++ (Talk.run input calls).channel.input ∧
      Interleaved (ChannelCall.ownLines 0 calls) (held refusalOf? read) (Talk.run input calls).channel.sent := by
  have kept := Talk.run_kept input calls
  refine ⟨⟨_, kept.commands.symm⟩, ?_, fun name data => ?_, kept.sent⟩
  · have next : (held requestOf? input)[(Talk.run input calls).returned.length]? =
        ((Talk.run input calls).channel.queued ++ held requestOf? (Talk.run input calls).channel.input).head? := by
      rw [kept.commands, List.getElem?_append_right (Nat.le_refl _), Nat.sub_self, List.head?_eq_getElem?]
    rw [next]
    exact nextRequest_answered _
  · rw [(callback_await name data _).2, kept.last]

end PluginBridge
