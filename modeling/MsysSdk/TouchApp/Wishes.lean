import MsysSdk.TouchApp.Closing

/-! What each callback is for: it asks for what the user did, although it works in several steps
between which a worker may change what is desired. -/

namespace Msys.TouchApp
open Python Transition
open InputMethod (Request RoleCall)

variable {cfg : Config} {s s' : State} {a : Action} {t : Task}

/-- What the keyboard should do. -/
inductive Wish
  | nothing
  | shown (mode : Str)
  | hidden
deriving DecidableEq

def focusWish (s : State) (hideIfMissing : Bool) : Wish :=
  match s.focus with
  | none => .nothing
  | some focused =>
    match inputRegistration s focused with
    | some (_, mode) => .shown mode
    | none => if hideIfMissing then .hidden else .nothing

def wish (s : State) : Task → Wish
  | .shown mode | .touched mode => .shown mode
  | .destroyed event w _ => if event = some w then .hidden else .nothing
  | .inputPointerPress event => if inputRegistration s event = none then .hidden else .nothing
  | .requestInputMethodHide | .hideMode => .hidden
  | .check => focusWish s true
  | .reconcileInputMethodFocus hideIfMissing => focusWish s hideIfMissing
  | _ => .nothing

/-- The callbacks that have to do with the keyboard. -/
def Task.keyboard : Task → Bool
  | .shown _ | .touched _ | .focusOut | .destroyed .. | .inputPointerPress _
  | .requestInputMethodHide | .hideMode | .check | .reconcileInputMethodFocus _ => true
  | _ => false

def Wish.Granted (before after : List Request) : Wish → Prop
  | .nothing => after = before
  | .shown mode => after = before ++ [⟨true, mode⟩]
  | .hidden => ∃ mode, after = before ++ [⟨false, mode⟩]

/-- How a callback that started in `s` with the wish `w` stands: on its way, or over, where only a
hide may have come to nothing. -/
structure Stands (s : State) (w : Wish) (u : State) : Prop where
  closed : u.closed = false
  channel : u.channel ≠ .absent
  task : (∃ v, u.agenda = [v] ∧ v.keyboard = true ∧ wish u v = w ∧ u.asked = s.asked ∧
      u.raised = s.raised) ∨
    u.agenda = [] ∧ (w.Granted s.asked u.asked ∧ u.raised = s.raised ∨
      w = .hidden ∧ u.asked = s.asked ∧ ∃ e, u.raised = s.raised ++ [e])

theorem asked_queue (x : Ime) (r : Request) (force : Bool) :
    (x.queue r force).asked = x.asked ++ [r] := by
  unfold Ime.queue
  split
  next => rfl
  next => split <;> rfl

theorem asked_queueInputMethod (hopen : s.closed = false) (hthere : s.channel ≠ .absent)
    (r : Request) (force : Bool) : (queueInputMethod s r force).asked = s.asked ++ [r] := by
  have hnot : ¬(s.closed = true ∨ s.channel = .absent) := by simp [hopen, hthere]
  have hx : (queueInputMethod s r force).toIme = s.queue r force := if_neg hnot
  rw [hx, asked_queue]

theorem Stands.perform {u : State} {v : Task} {w : Wish} (hopen : u.closed = false)
    (hthere : u.channel ≠ .absent) (hv : v.keyboard = true) (hw : wish u v = w)
    (hasked : u.asked = s.asked) (hraised : u.raised = s.raised) (hagenda : u.agenda = []) :
    Stands s w (perform cfg u v) := by
  subst hw
  have ends {x : State} (hclosed : x.closed = u.closed) (hchannel : x.channel = u.channel)
      (hagenda' : x.agenda = u.agenda) (hraised' : x.raised = u.raised) {w : Wish}
      (hgranted : w.Granted u.asked x.asked) : Stands s w x :=
    ⟨hclosed.trans hopen, hchannel ▸ hthere, .inr ⟨hagenda'.trans hagenda,
      .inl ⟨hasked ▸ hgranted, hraised'.trans hraised⟩⟩⟩
  have goes {x : State} {w : Wish} (v' : Task) (hclosed : x.closed = u.closed)
      (hchannel : x.channel = u.channel) (hagenda' : x.agenda = v' :: u.agenda)
      (hkey : v'.keyboard = true) (hwish : wish x v' = w) (hasked' : x.asked = u.asked)
      (hraised' : x.raised = u.raised) : Stands s w x :=
    ⟨hclosed.trans hopen, hchannel ▸ hthere, .inl ⟨v', by rw [hagenda', hagenda], hkey, hwish,
      hasked'.trans hasked, hraised'.trans hraised⟩⟩
  cases v with
  | shown mode | touched mode =>
    refine ends ?_ ?_ ?_ ?_ ?_
    exacts [rfl, rfl, rfl, rfl, asked_queueInputMethod (s := cancelInputFocusCheck u) hopen hthere
      ⟨true, mode⟩ _]
  | focusOut =>
    refine ends ?_ ?_ ?_ ?_ ?_
    exacts [rfl, rfl, rfl, rfl, rfl]
  | destroyed event w mode =>
    simp only [TouchApp.perform, wish]
    split
    next =>
      refine ends ?_ ?_ ?_ ?_ ?_
      exacts [rfl, rfl, rfl, rfl, ⟨mode, asked_queueInputMethod
        (s := { u with inputWidgets := u.inputWidgets.filter fun e => e.1 ≠ w }) hopen hthere
        ⟨false, mode⟩ false⟩]
    next =>
      refine ends ?_ ?_ ?_ ?_ ?_
      exacts [rfl, rfl, rfl, rfl, rfl]
  | inputPointerPress event =>
    simp only [TouchApp.perform, wish]
    split
    next =>
      refine goes .requestInputMethodHide ?_ ?_ ?_ ?_ ?_ ?_ ?_
      exacts [rfl, rfl, rfl, rfl, rfl, rfl, rfl]
    next =>
      refine ends ?_ ?_ ?_ ?_ ?_
      exacts [rfl, rfl, rfl, rfl, rfl]
  | requestInputMethodHide =>
    simp only [TouchApp.perform, TouchApp.requestInputMethodHide, wish]
    split
    next =>
      refine ends ?_ ?_ ?_ ?_ ?_
      exacts [rfl, rfl, rfl, rfl, ⟨_, asked_queueInputMethod (s := cancelInputFocusCheck u) hopen
        hthere _ false⟩]
    next =>
      refine goes .hideMode ?_ ?_ ?_ ?_ ?_ ?_ ?_
      exacts [rfl, rfl, rfl, rfl, rfl, rfl, rfl]
  | hideMode =>
    simp only [TouchApp.perform, TouchApp.hideMode, wish]
    split
    next =>
      exact ⟨hopen, hthere, .inr ⟨rfl, .inr ⟨rfl, hasked, _, by rw [← hraised]; rfl⟩⟩⟩
    next =>
      refine ends ?_ ?_ ?_ ?_ ?_
      exacts [rfl, rfl, rfl, rfl, ⟨_, asked_queueInputMethod hopen hthere _ false⟩]
  | check =>
    refine goes (.reconcileInputMethodFocus true) ?_ ?_ ?_ ?_ ?_ ?_ ?_
    exacts [rfl, rfl, rfl, rfl, rfl, rfl, rfl]
  | reconcileInputMethodFocus b =>
    have hnot : ¬(u.closed = true ∨ u.channel = .absent) := by simp [hopen, hthere]
    simp only [TouchApp.perform, TouchApp.reconcileInputMethodFocus, wish, focusWish, if_neg hnot]
    cases hfocus : u.focus with
    | none =>
      refine ends ?_ ?_ ?_ ?_ ?_
      exacts [rfl, rfl, rfl, rfl, rfl]
    | some focused =>
      dsimp only
      cases hreg : inputRegistration u focused with
      | some e =>
        refine ends ?_ ?_ ?_ ?_ ?_
        exacts [rfl, rfl, rfl, rfl, asked_queueInputMethod hopen hthere ⟨true, e.2⟩ false]
      | none =>
        dsimp only
        split
        next =>
          refine goes .requestInputMethodHide ?_ ?_ ?_ ?_ ?_ ?_ ?_
          exacts [rfl, rfl, rfl, rfl, rfl, rfl, rfl]
        next =>
          refine ends ?_ ?_ ?_ ?_ ?_
          exacts [rfl, rfl, rfl, rfl, rfl]
  | _ => cases hv

theorem asked_worker {x x' : Ime} {closed : Bool} {channel : Channel} {w : Nat}
    {b : Ime.WorkerAction} (h : x.workerStep closed channel w b = some x') :
    x'.asked = x.asked := (worker_calls h).1

def Action.movesFocus : Action → Bool
  | .moveFocus _ => true
  | _ => false

/-- The rest of one callback, while the focus stays where it is. -/
def Within (s : State) (a : Action) : Prop := s.agenda ≠ [] ∧ a.movesFocus = false

instance (s : State) (a : Action) : Decidable (Within s a) :=
  inferInstanceAs (Decidable (_ ∧ _))

theorem Stands.step {w : Wish} {u u' : State} (hi : Stands s w u) (hok : Within u a)
    (h : step cfg u a = some u') : Stands s w u' := by
  obtain ⟨v, hagenda, hkey, hwish, hasked, hraised⟩ | ⟨hover, -⟩ := hi.task
  · cases a with
    | event | call | attachInputMethod | activateLifecycle | fire =>
      simp [TouchApp.step, hagenda] at h
    | moveFocus focus => exact absurd hok.2 (by simp [Action.movesFocus])
    | perform =>
      simp only [TouchApp.step, hagenda, Option.some.injEq] at h
      subst h
      exact Stands.perform (u := { u with agenda := [] }) hi.closed hi.channel hkey
        (by rw [← hwish]; cases v <;> rfl) hasked hraised rfl
    | post m =>
      obtain rfl := Option.some.inj h
      exact ⟨hi.closed, hi.channel,
        .inl ⟨v, hagenda, hkey, by rw [← hwish]; cases v <;> rfl, hasked, hraised⟩⟩
    | worker k b =>
      obtain ⟨ime, hime, rfl⟩ := Option.map_eq_some_iff.mp h
      exact ⟨hi.closed, hi.channel, .inl ⟨v, hagenda, hkey, by rw [← hwish]; cases v <;> rfl,
        (asked_worker hime).trans hasked, hraised⟩⟩
  · exact absurd hover hok.1

/-- A callback that has to do with the keyboard asks for what it is about and for nothing else; only
a hide comes to nothing, where a worker whose call failed gets between its two looks. -/
theorem callbacks_ask (cfg : Config) (s s' : State) (t : Task) (hkey : t.keyboard = true)
    (hagenda : s.agenda = [t]) (hopen : s.closed = false) (hthere : s.channel ≠ .absent)
    (h : Reach (step cfg) Within s s') (hdone : s'.agenda = []) :
    (wish s t).Granted s.asked s'.asked ∧ s'.raised = s.raised ∨
      wish s t = .hidden ∧ s'.asked = s.asked ∧ ∃ e, s'.raised = s.raised ++ [e] := by
  have hstands : Stands s (wish s t) s' :=
    h.invariant (P := Stands s (wish s t))
      ⟨hopen, hthere, .inl ⟨t, hagenda, hkey, rfl, rfl, rfl⟩⟩ fun _ _ _ hi hok hs => hi.step hok hs
  obtain ⟨v, hrest, -⟩ | ⟨-, hresult⟩ := hstands.task
  · rw [hdone] at hrest
    cases hrest
  · exact hresult

/-- The focus has left the editor for good when the check comes. -/
def leaveEditor : List Action :=
  [.attachInputMethod editor (str "en"), .activateLifecycle true,
    .event (.focusIn editor (str "en")), .perform, .event (.focusOut editor (str "en")), .perform,
    .fire 2]

theorem callbacks_ask_left :
    ∃ s s', run (step plainConfig) init leaveEditor = some s ∧
      Reach (step plainConfig) Within s s' ∧ s'.agenda = [] ∧
      ∃ mode, s'.asked = s.asked ++ [⟨false, mode⟩] := by
  have hrun : ∃ s s', run (step plainConfig) init leaveEditor = some s ∧
      runWhere (step plainConfig) Within s [.perform, .perform, .perform, .perform] = some s' ∧
      s.agenda = [.check] ∧ s.closed = false ∧ s.channel = .opened ∧ s'.agenda = [] ∧
      wish s .check = .hidden ∧ s'.raised = s.raised :=
    ⟨_, _, rfl, rfl, rfl, rfl, rfl, rfl, rfl, rfl⟩
  obtain ⟨s, s', hs, hs', hagenda, hopen, hchannel, hdone, hwish, hraised⟩ := hrun
  have hreach := Reach.of_runWhere hs'
  refine ⟨s, s', hs, hreach, hdone, ?_⟩
  rcases callbacks_ask plainConfig s s' .check rfl hagenda hopen (by simp [hchannel]) hreach hdone with
    ⟨hgranted, -⟩ | ⟨-, -, e, he⟩
  · rw [hwish] at hgranted
    exact hgranted
  · rw [hraised] at he
    simp at he

end Msys.TouchApp
