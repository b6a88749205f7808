import SmallLisp.Command
import SmallLisp.Proofs.SoundValues

namespace SmallLisp

def Event.IsQuiet : Event → Prop
  | parsed _ => True
  | printed _ => True
  | logged _ => True
  | _ => False

/-- What is written for a value, after its label. -/
def View.valueText (view : View) (v : Value) : String :=
  (if view.ink.colored then "\x1b[1m\x1b[92mEvaluation:\x1b[0m " else "Evaluation: ") ++
    v.display ++ "\n"

/-- What is written for an error, after its label. -/
def View.errorText (view : View) (label message : String) : String :=
  if view.ink.colored then
    "\x1b[1m\x1b[91m" ++ label ++ "\x1b[0m \x1b[91m" ++ message ++ "\x1b[0m\n"
  else label ++ " " ++ message ++ "\n"

theorem View.heading_append (view : View) (v : Value) :
    view.ink.heading "Evaluation:" Ink.green ++ " " ++ v.display ++ "\n" = view.valueText v := by
  unfold valueText Ink.heading
  split <;> rfl

theorem View.complaint_append (view : View) (label message : String) :
    view.ink.complaint label message ++ "\n" = view.errorText label message := by
  unfold errorText Ink.complaint Ink.heading Ink.tint
  split
  · simp only [String.append_assoc]
    rfl
  · rfl

/-- An outcome is shown on one of the two outputs, under its label. -/
inductive Event.Shown (view : View) : Event → Prop
  | value (v : Value) (herrors : view.errors (.value v) = "")
      (houtput : view.output (.value v) = view.valueText v) : Shown view (.value v)
  | reading (e : ReadError) (houtput : view.output (.failed (.reading e)) = "")
      (herrors : view.errors (.failed (.reading e)) = view.errorText "Reading error:" e.message) :
      Shown view (.failed (.reading e))
  | evaluation (e : EvalError) (houtput : view.output (.failed (.evaluation e)) = "")
      (herrors : view.errors (.failed (.evaluation e)) =
        view.errorText "Evaluation error:" e.message) :
      Shown view (.failed (.evaluation e))

/-- The events of a line have exactly one outcome, which is shown. -/
def Reported (view : View) (events : List Event) : Prop :=
  ∃ before outcome, events = before ++ [outcome] ∧ (∀ e ∈ before, e.IsQuiet) ∧ outcome.Shown view

theorem reported_of_shown {view : View} {outcome : Event} (h : outcome.Shown view) :
    Reported view [outcome] :=
  ⟨[], outcome, rfl, List.forall_mem_nil _, h⟩

theorem reported_append {view : View} {before events : List Event}
    (hbefore : ∀ e ∈ before, e.IsQuiet) (h : Reported view events) :
    Reported view (before ++ events) := by
  obtain ⟨more, outcome, rfl, hmore, hshown⟩ := h
  refine ⟨before ++ more, outcome, (List.append_assoc _ _ _).symm, ?_, hshown⟩
  exact List.forall_mem_append.mpr ⟨hbefore, hmore⟩

theorem reported_cons {view : View} {event : Event} {events : List Event} (he : event.IsQuiet)
    (h : Reported view events) : Reported view (event :: events) :=
  reported_append (List.forall_mem_singleton.mpr he) h

theorem not_crash_of_reported {view : View} {events : List Event} (h : Reported view events) :
    events.any Event.isCrash = false := by
  obtain ⟨before, outcome, rfl, hbefore, hshown⟩ := h
  have hquiet : before.any Event.isCrash = false := by
    rw [List.any_eq_false]
    intro e he
    have hq := hbefore e he
    cases e with
    | crashed _ => cases hq
    | _ => exact nofun
  have houtcome : outcome.isCrash = false := by
    cases hshown <;> rfl
  rw [List.any_append, hquiet, List.any_cons, houtcome]
  rfl

def Entry.lines : List Entry → List String
  | line text :: rest => text :: lines rest
  | _ => []

namespace Session

def blocks (limit : Nat) : List String → Session → List (List Event)
  | [], _ => []
  | line :: rest, s => (s.respond limit line).1 :: blocks limit rest (s.respond limit line).2

variable {s : Session}

theorem event_of_ends (settings : Settings) (showLog : Bool) {fault : Fault}
    (h : Ends (.error fault)) : fault.event.Shown (Command.dialogueView settings showLog) := by
  cases h with
  | reading e h =>
    have hreported : (Fault.reading e).isReported = true := by
      cases h <;> rfl
    rw [Fault.event, if_pos hreported]
    exact .reading e rfl (View.complaint_append _ _ _)
  | evaluation e h =>
    have hreported : (Fault.evaluation e).isReported = true := by
      cases h <;> rfl
    rw [Fault.event, if_pos hreported]
    exact .evaluation e rfl (View.complaint_append _ _ _)

theorem evaluateEvents_reported (limit : Nat) (settings : Settings) (showLog : Bool) {form : Value}
    (hs : s.Sound) (hform : form.Sound) :
    Reported (Command.dialogueView settings showLog) (s.evaluateEvents limit form).1 ∧
      (s.evaluateEvents limit form).2.2.Sound := by
  obtain ⟨hends, hsound⟩ := evaluate_ends limit hs hform
  have hprinted : ∀ e ∈ (s.evaluate limit form).1.printed.toList.map Event.printed, e.IsQuiet := by
    intro e he
    obtain ⟨line, _, rfl⟩ := List.mem_map.mp he
    trivial
  unfold evaluateEvents
  dsimp only
  generalize hr : (s.evaluate limit form).1.result = r at hends
  cases r with
  | ok v =>
    have hshown : (Event.value v).Shown (Command.dialogueView settings showLog) :=
      .value v rfl (View.heading_append _ v)
    exact ⟨reported_append hprinted (reported_of_shown hshown), hsound⟩
  | error fault =>
    have hfault := reported_of_shown (event_of_ends settings showLog hends)
    exact ⟨reported_append hprinted (reported_cons trivial hfault), hsound⟩

theorem enter_reported (limit : Nat) (settings : Settings) (showLog : Bool) {text : String}
    (hs : s.Sound) (ht : Program.Admissible text) :
    Reported (Command.dialogueView settings showLog) (s.enter limit text).1 ∧
      (s.enter limit text).2.2.Sound := by
  unfold enter
  dsimp only
  cases hread : Program.ofTokens limit (Token.tokenize text) with
  | error e =>
    have hends := Ends.reading e (Program.expected_of_unread ht hread)
    have hfault := reported_of_shown (event_of_ends settings showLog hends)
    exact ⟨reported_cons trivial hfault, hs⟩
  | ok form =>
    have hform : form.Sound := Program.sound_of_read ht.fits hread
    obtain ⟨hevents, hsound⟩ := evaluateEvents_reported limit settings showLog hs hform
    exact ⟨reported_cons trivial (reported_cons trivial hevents), hsound⟩

theorem respond_reported (limit : Nat) (settings : Settings) (showLog : Bool) {line : String}
    (hs : s.Sound) (hline : Program.Admissible (Text.trim line)) :
    (if Text.allBlank line then (s.respond limit line).1 = []
      else Reported (Command.dialogueView settings showLog) (s.respond limit line).1) ∧
      (s.respond limit line).2.Sound := by
  unfold respond
  split
  · exact ⟨rfl, hs⟩
  · exact enter_reported limit settings showLog hs hline

theorem converse_blocks (limit : Nat) (settings : Settings) (showLog : Bool)
    (entries : List Entry) (hs : s.Sound)
    (hentries : ∀ line ∈ Entry.lines entries, Program.Admissible (Text.trim line)) :
    (s.converse limit entries).1 =
        ((s.blocks limit (Entry.lines entries)).map (.prompt :: ·)).flatten ++ [.prompt, .leaving] ∧
      List.Forall₂ (fun line events => if Text.allBlank line then events = []
        else Reported (Command.dialogueView settings showLog) events)
        (Entry.lines entries) (s.blocks limit (Entry.lines entries)) := by
  induction entries generalizing s with
  | nil => exact ⟨rfl, .nil⟩
  | cons entry rest ih =>
    cases entry with
    | interrupt => exact ⟨rfl, .nil⟩
    | line text =>
      obtain ⟨htext, hrest⟩ := List.forall_mem_cons.mp hentries
      obtain ⟨hline, hsound⟩ := respond_reported limit settings showLog hs htext
      obtain ⟨hevents, hblocks⟩ := ih hsound hrest
      -- A crash would end the dialogue at this line.
      have hcrash : (s.respond limit text).1.any Event.isCrash = false := by
        split at hline
        · rw [hline]
          rfl
        · exact not_crash_of_reported hline
      refine ⟨?_, .cons hline hblocks⟩
      simp only [converse, hcrash, Entry.lines, blocks, hevents, List.map_cons, List.flatten_cons,
        List.cons_append, List.append_assoc, Bool.false_eq_true, ↓reduceIte]

end Session

end SmallLisp
