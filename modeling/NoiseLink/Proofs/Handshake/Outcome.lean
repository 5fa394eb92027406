import NoiseLink.Proofs.Stream.Keeps
import NoiseLink.Proofs.Stream.Line
import NoiseLink.Upgrade

/-! What a conversation comes to on a tape: the acts that it says and how it ends, or that it waits for
more. However often it is polled, in whatever pieces its stream comes and whatever its sink lets it wait
for, it says these acts and has this end. -/
namespace NoiseLink

/-- A sink that answers every send alike, whenever it answers. Only if it stalls it has a send wait, so
only then it may be asked again, and what comes in on the tape is not its concern. -/
structure Sink.Answers (sink : Sink ω) (tape : ω → Option Tape) (takes : Except NetworkError Unit)
    (stalls : Prop) : Prop where
  send : ∀ {bytes w answer after t}, tape w = some t → sink.send bytes w = (answer, after) →
    (answer = .pending ∧ stalls ∨ answer = .ready takes) ∧ tape after = some t
  resume : stalls → ∀ {w answer after t}, tape w = some t → sink.resume w = (answer, after) →
    (answer = .pending ∨ answer = .ready takes) ∧ tape after = some t

@[simp] theorem Tape.follow_nil (t : Tape) : t.follow [] t.ending = t := by
  simp [follow]

theorem Tape.unit_follow {size : Nat} {t rest : Tape} {u : Octets size}
    (full : t.unit size = (.full u, rest)) (more : Bytes) (ending : Ending) :
    (t.follow more ending).unit size = (.full u, rest.follow more ending) := by
  rw [Tape.eq_rewind_of_unit full, Tape.follow_rewind, Tape.unit_full]

namespace Exchange

variable {ω α β : Type} {sink : Sink ω} {source : Source ω} {tape : ω → Option Tape}
  {takes : Except NetworkError Unit} {stalls : Prop}

/-- The acts that a conversation says if this is its tape, and its answer then. -/
def outcome (takes : Except NetworkError Unit) :
    Exchange α → Tape → List Bytes × Poll (Except Error α)
  | done result, _ => ([], .ready result)
  | send act next, t =>
    match takes with
    | .ok () => (act :: (next.outcome takes t).1, (next.outcome takes t).2)
    | .error cause => ([act], .ready (.error (.network cause)))
  | sending next, t =>
    match takes with
    | .ok () => next.outcome takes t
    | .error cause => ([], .ready (.error (.network cause)))
  | receive size got next, t =>
    match (t.rewind got.toList).unit size with
    | (.full act, rest) => (next act).outcome takes rest
    | (.waiting _, _) => ([], .pending)
    | (.ended got, _) => ([], .ready (.error (.truncatedAct got.size)))
    | (.failed cause _, _) => ([], .ready (.error (.network cause)))

def left (takes : Except NetworkError Unit) : Exchange α → Tape → Tape
  | done _, t => t
  | send _ next, t | sending next, t =>
    match takes with
    | .ok () => next.left takes t
    | .error _ => t
  | receive size got next, t =>
    match (t.rewind got.toList).unit size with
    | (.full act, rest) => (next act).left takes rest
    | (_, rest) => rest

def handed (sink : Sink ω) (source : Source ω) : Exchange α → ω → List Bytes
  | done _, _ => []
  | send act next, w =>
    act :: match sink.send act w with
      | (.ready (.ok ()), w) => handed sink source next w
      | _ => []
  | sending next, w =>
    match sink.resume w with
    | (.ready (.ok ()), w) => handed sink source next w
    | _ => []
  | receive size got next, w =>
    match source.gather size got w with
    | (.full act, w) => handed sink source (next act) w
    | _ => []

/-- A sink that keeps what it is given has kept just the acts that were handed to it. -/
theorem kept_of_poll {kept : ω → List Bytes}
    (sends : ∀ bytes w, kept (sink.send bytes w).2 = kept w ++ [bytes])
    (resumes : ∀ w, kept (sink.resume w).2 = kept w) (receives : source.Keeps kept) (x : Exchange α)
    (w : ω) : kept (x.poll sink source w).2.2 = kept w ++ x.handed sink source w := by
  induction x generalizing w with
  | done result => simp [poll, handed]
  | send act next ih =>
    have first := sends act w
    rw [poll, handed]
    split <;> rename_i answer <;> rw [answer] at first ⊢
    · rw [ih, first, List.append_assoc]
      rfl
    · exact first
    · exact first
  | sending next ih =>
    have first := resumes w
    rw [poll, handed]
    split <;> rename_i answer <;> rw [answer] at first ⊢
    · rw [ih, first]
    · rw [List.append_nil]
      exact first
    · rw [List.append_nil]
      exact first
  | receive size got next ih =>
    have first := receives.gather size got w
    rw [poll, handed]
    split <;> rename_i answer <;> rw [answer] at first ⊢
    · rw [ih, first]
    · rw [List.append_nil]
      exact first
    · rw [List.append_nil]
      exact first
    · rw [List.append_nil]
      exact first

/-- A conversation that holds no more of an act than the act is long. Only where its sink stalls has it
left a send behind. -/
inductive Proper (stalls : Prop) : Exchange α → Prop where
  | done {result} : Proper stalls (done result)
  | send {act next} : Proper stalls next → Proper stalls (send act next)
  | sending {next} : stalls → Proper stalls next → Proper stalls (sending next)
  | receive {size got next} : got.size ≤ size → (∀ act, Proper stalls (next act)) →
      Proper stalls (receive size got next)

def prepend (acts : List Bytes) (rest : List Bytes × Poll (Except Error α)) :
    List Bytes × Poll (Except Error α) :=
  (acts ++ rest.1, rest.2)

@[simp] theorem prepend_prepend (first second : List Bytes) (rest : List Bytes × Poll (Except Error α)) :
    prepend first (prepend second rest) = prepend (first ++ second) rest := by
  simp [prepend]

/-- What comes later makes no difference to a conversation that is over, and has any other say at least
what it has said. -/
theorem outcome_follow (x : Exchange α) (takes : Except NetworkError Unit) {t : Tape}
    (quiet : t.ending = .quiet) (more : Bytes) (ending : Ending) :
    (x.outcome takes t).1 <+: (x.outcome takes (t.follow more ending)).1 ∧
      ∀ answer, (x.outcome takes t).2 = .ready answer →
        x.outcome takes (t.follow more ending) = x.outcome takes t := by
  induction x generalizing t with
  | done result => exact ⟨List.nil_prefix, fun _ _ => rfl⟩
  | send act next ih =>
    cases takes with
    | error cause => exact ⟨List.prefix_rfl, fun _ _ => rfl⟩
    | ok taken =>
      obtain ⟨begins, same⟩ := ih quiet
      exact ⟨List.cons_prefix_cons.2 ⟨rfl, begins⟩, fun answer comesTo => by
        rw [outcome, outcome, same answer comesTo]⟩
  | sending next ih =>
    cases takes with
    | error cause => exact ⟨List.nil_prefix, fun _ _ => rfl⟩
    | ok taken => exact ih quiet
  | receive size got next ih =>
    have later := @Tape.unit_follow size (t.rewind got.toList)
    rw [outcome, outcome, ← Tape.follow_rewind]
    generalize found : (t.rewind got.toList).unit size = result at later
    obtain ⟨gathered, rest⟩ := result
    rw [Tape.unit] at found
    split at found
    · cases found
      rw [later rfl]
      exact ih _ quiet
    · rw [show (t.rewind got.toList).ending = .quiet from quiet] at found
      cases found
      exact ⟨List.nil_prefix, fun answer ready => by cases ready⟩

/-- A conversation that has heard some bytes and said some acts goes on as another, whatever comes next. -/
structure After (takes : Except NetworkError Unit) (stalls : Prop) (x : Exchange α) (heard : Bytes)
    (acts : List Bytes) (next : Exchange α) : Prop where
  proper : next.Proper stalls
  outcome : ∀ t : Tape, x.outcome takes (t.rewind heard) = prepend acts (next.outcome takes t)
  left : ∀ t : Tape, x.left takes (t.rewind heard) = next.left takes t

theorem After.refl {x : Exchange α} (proper : x.Proper stalls) : After takes stalls x [] [] x :=
  ⟨proper, fun _ => rfl, fun _ => rfl⟩

theorem After.trans {x y z : Exchange α} {first second : Bytes} {before acts : List Bytes}
    (one : After takes stalls x first before y) (two : After takes stalls y second acts z) :
    After takes stalls x (first ++ second) (before ++ acts) z := by
  refine ⟨two.proper, fun t => ?_, fun t => ?_⟩
  · rw [← Tape.rewind_rewind, one.outcome, two.outcome, prepend_prepend]
  · rw [← Tape.rewind_rewind, one.left, two.left]

/-- How a poll that hears some bytes and says some acts may leave a conversation that has the tape `t`
before it. -/
inductive Turn (source : Source ω) (tape : ω → Option Tape) (takes : Except NetworkError Unit)
    (stalls : Prop) (x : Exchange α) (acts : List Bytes) (t : Tape) :
    Poll (Except Error α) × Exchange α × ω → Prop where
  | waits {next after rest} (heard) : t = rest.rewind heard → tape after = some rest →
      After takes stalls x heard acts next →
      (¬stalls → source.Paused tape after rest ∧ next.outcome takes ⟨[], .quiet⟩ = ([], .pending)) →
      Turn source tape takes stalls x acts t (.pending, next, after)
  | ends {answer next after rest} (heard) : t = rest.rewind heard → tape after = some rest →
      x.outcome takes t = (acts, .ready answer) → x.left takes t = rest →
      (x.outcome takes ⟨heard, .quiet⟩).1 = acts →
      Turn source tape takes stalls x acts t (.ready answer, next, after)

/-- A turn of what a conversation goes on as is one of its own. -/
theorem Turn.behind {x y : Exchange α} {first : Bytes} {before acts : List Bytes} {t : Tape}
    {result : Poll (Except Error α) × Exchange α × ω} (came : After takes stalls x first before y)
    (turn : Turn source tape takes stalls y acts t result) :
    Turn source tape takes stalls x (before ++ acts) (t.rewind first) result := by
  cases turn with
  | @waits next after rest heard said holds goes idle =>
    exact .waits (first ++ heard) (said ▸ Tape.rewind_rewind rest first heard) holds (came.trans goes) idle
  | @ends answer next after rest heard said holds comesTo leaves allowed =>
    refine .ends (first ++ heard) (said ▸ Tape.rewind_rewind rest first heard) holds ?_ ?_ ?_
    · rw [came.outcome, comesTo, prepend]
    · rw [came.left, leaves]
    · have heardAll := came.outcome ⟨heard, .quiet⟩
      rw [Tape.rewind] at heardAll
      rw [heardAll, prepend, allowed]

theorem after_receive {size : Nat} {got : Array UInt8} {next : Octets size → Exchange α}
    {act : Octets size} {missing : Bytes} (whole : act.bytes = got.toList ++ missing)
    (proper : (next act).Proper stalls) :
    After takes stalls (receive size got next) missing [] (next act) := by
  have full (t : Tape) : ((t.rewind missing).rewind got.toList).unit size = (.full act, t) := by
    rw [Tape.rewind_rewind, ← whole, Tape.unit_full]
  refine ⟨proper, fun t => ?_, fun t => ?_⟩
  · rw [outcome, full]
    rfl
  · rw [left, full]

/-- However the stream and the sink behave, a poll takes its turn. -/
theorem Proper.turn (hands : source.Hands tape) (answers : sink.Answers tape takes stalls)
    {x : Exchange α} (proper : x.Proper stalls) {w : ω} {t : Tape} (holds : tape w = some t) :
    Turn source tape takes stalls x (x.handed sink source w) t (x.poll sink source w) := by
  induction proper generalizing w t with
  | done => exact .ends [] rfl holds rfl rfl rfl
  | @send act next proper ih =>
    rw [poll, handed]
    generalize sent : sink.send act w = result
    obtain ⟨answer, after⟩ := result
    obtain ⟨⟨rfl, stalls⟩ | rfl, left⟩ := answers.send holds sent
    · refine .waits [] rfl left ⟨.sending stalls proper, fun t => ?_, fun t => ?_⟩ (absurd stalls)
      · cases takes <;> rfl
      · cases takes <;> rfl
    · cases takes with
      | error cause => exact .ends [] rfl left rfl rfl rfl
      | ok taken =>
        have sends : (Exchange.send act next).After (.ok taken) stalls [] [act] next :=
          ⟨proper, fun _ => rfl, fun _ => rfl⟩
        exact (ih left).behind sends
  | @sending next stalled proper ih =>
    rw [poll, handed]
    generalize sent : sink.resume w = result
    obtain ⟨answer, after⟩ := result
    obtain ⟨rfl | rfl, left⟩ := answers.resume stalled holds sent
    · exact .waits [] rfl left (.refl (.sending stalled proper)) (absurd stalled)
    · cases takes with
      | error cause => exact .ends [] rfl left rfl rfl rfl
      | ok taken =>
        have goes : (Exchange.sending next).After (.ok taken) stalls [] [] next :=
          ⟨proper, fun _ => rfl, fun _ => rfl⟩
        exact (ih left).behind goes
  | @receive size got next fits proper ih =>
    rw [poll, handed]
    rcases hands.gather holds fits with
      ⟨more, after, rest, gathered, short, paused, same⟩ |
      ⟨outcome, after, rest, gathered, settled, left, said⟩
    · obtain ⟨heard, begins⟩ := Source.prefix_of_gather gathered
      have back (t : Tape) : (t.rewind heard).rewind got.toList = t.rewind more.toList := by
        rw [Tape.rewind_rewind, begins]
      rw [gathered]
      refine .waits heard ?_ (paused.holds hands) ?_ fun _ => ⟨paused, ?_⟩
      · exact Tape.rewind_inj.1 (same.symm.trans (back rest).symm)
      · refine ⟨.receive (Nat.le_of_lt short) proper, fun t => ?_, fun t => ?_⟩
        · rw [Exchange.outcome, Exchange.outcome, back]
          rfl
        · rw [Exchange.left, Exchange.left, back]
      · rw [Exchange.outcome, Tape.rewind, List.append_nil, Tape.unit_short _ (by simpa using short)]
    · rw [gathered]
      rcases Tape.unit_cases got.toList (by simpa using fits) t with
        ⟨act, missing, behind, whole, rfl⟩ | short
      · rw [Tape.rewind_rewind, ← whole, Tape.unit_full] at said
        cases said
        exact (ih act left).behind (after_receive whole (proper act))
      · -- the tape ends within the act: all of it was heard, and nothing would be said if it went on
        obtain ⟨bytes, ending⟩ := t
        have cut (ending : Ending) : (Tape.rewind ⟨bytes, ending⟩ got.toList).unit size = _ :=
          Tape.unit_short _ short ending
        have silent : ((Exchange.receive size got next).outcome takes ⟨bytes, .quiet⟩).1 = [] := by
          rw [Exchange.outcome, cut]
        have all (ending : Ending) : (⟨bytes, ending⟩ : Tape) = Tape.rewind ⟨[], ending⟩ bytes := by
          simp [Tape.rewind]
        have ended := said.symm.trans (cut ending)
        cases ending with
        | quiet =>
          cases ended
          exact settled.elim
        | closed =>
          cases ended
          refine .ends bytes (all .closed) left ?_ ?_ silent
          · rw [Exchange.outcome, said]
          · rw [Exchange.left, said]
        | failing cause =>
          cases ended
          refine .ends bytes (all (.failing cause)) left ?_ ?_ silent
          · rw [Exchange.outcome, said]
          · rw [Exchange.left, said]

inductive Polling (source : Source ω) (tape : ω → Option Tape) (takes : Except NetworkError Unit)
    (stalls : Prop) (x : Exchange α) (acts : List Bytes) (t : Tape) :
    Poll (Except Error α) × Exchange α × ω → Prop where
  | waits {next after rest} : next.Proper stalls → tape after = some rest → rest.ending = t.ending →
      (∀ more ending, x.outcome takes (t.follow more ending) =
        prepend acts (next.outcome takes (rest.follow more ending))) →
      (¬stalls → source.Prompt tape → next.outcome takes rest = ([], .pending)) →
      Polling source tape takes stalls x acts t (.pending, next, after)
  | ends {answer next after} : x.outcome takes t = (acts, .ready answer) →
      Polling source tape takes stalls x acts t (.ready answer, next, after)

/-- However the stream and the sink behave, a poll goes along the way to the outcome. -/
theorem Proper.polling (hands : source.Hands tape) (answers : sink.Answers tape takes stalls)
    {x : Exchange α} (proper : x.Proper stalls) {w : ω} {t : Tape} (holds : tape w = some t) :
    Polling source tape takes stalls x (x.handed sink source w) t (x.poll sink source w) := by
  have turn := proper.turn hands answers holds
  generalize x.poll sink source w = result at turn
  cases turn with
  | waits heard said there goes idle =>
    subst said
    refine .waits goes.proper there rfl (fun more ending => ?_) fun free prompt => ?_
    · rw [Tape.follow_rewind, goes.outcome]
    · obtain ⟨paused, stuck⟩ := idle free
      rw [prompt _ _ paused, stuck]
  | ends _ _ _ comesTo => exact .ends comesTo

/-- Where nobody waits without need, one poll comes to the outcome. -/
theorem Proper.fst_poll (hands : source.Hands tape) (answers : sink.Answers tape takes stalls)
    (free : ¬stalls) (prompt : source.Prompt tape) {x : Exchange α} (proper : x.Proper stalls) {w : ω}
    {t : Tape} (holds : tape w = some t) : (x.poll sink source w).1 = (x.outcome takes t).2 := by
  have polling := proper.polling hands answers holds
  generalize x.poll sink source w = result at polling
  cases polling with
  | waits _ _ ending later idle =>
    have now := later [] t.ending
    rw [Tape.follow_nil, ← ending, Tape.follow_nil, idle free prompt] at now
    rw [now, prepend]
  | ends comesTo => rw [comesTo]

theorem keeps_poll {view : ω → β} (receives : source.Keeps view) (sends : sink.Keeps view)
    (resumes : ∀ w, view (sink.resume w).2 = view w) (x : Exchange α) (w : ω) :
    view (x.poll sink source w).2.2 = view w := by
  induction x generalizing w with
  | done result => rfl
  | send act next ih =>
    have first := sends.send act w
    rw [poll]
    split <;> rename_i answer <;> rw [answer] at first
    · exact (ih _).trans first
    · exact first
    · exact first
  | sending next ih =>
    have first := resumes w
    rw [poll]
    split <;> rename_i answer <;> rw [answer] at first
    · exact (ih _).trans first
    · exact first
    · exact first
  | receive size got next ih =>
    have first := receives.gather size got w
    rw [poll]
    split <;> rename_i answer <;> rw [answer] at first
    · exact (ih _ _).trans first
    · exact first
    · exact first
    · exact first

end Exchange

namespace Upgrade

variable {ω : Type} {sink : Sink ω} {source : Source ω} {tape : ω → Option Tape}
  {takes : Except NetworkError Unit} {stalls : Prop} {whole : Exchange Session} {said : Tape}
  {given : List Bytes}

def onward (u : Upgrade) (exchange : Exchange Session) (now : Nanoseconds) : Upgrade :=
  { u with exchange, deadline := u.deadline.getD (now + u.timeout) }

theorem poll_of_ready {u : Upgrade} {w after : ω} {exchange : Exchange Session}
    {answer : Except Error Session}
    (ended : u.exchange.poll sink source w = (.ready answer, exchange, after)) (now : Nanoseconds) :
    u.poll sink source now w =
      (.ready (answer.map Connection.ofSession), u.onward exchange now, after) := by
  rw [poll, ended]
  cases answer <;> rfl

theorem poll_of_pending {u : Upgrade} {w after : ω} {exchange : Exchange Session}
    (waits : u.exchange.poll sink source w = (.pending, exchange, after)) (now : Nanoseconds) :
    u.poll sink source now w =
      (if u.deadline.getD (now + u.timeout) ≤ now then .ready (.error .handshakeTimeout) else .pending,
        u.onward exchange now, after) := by
  rw [poll, waits]
  rfl

theorem proper_proceed {α β : Type} {step : Except Error β} {next : β → Exchange α}
    (proper : ∀ value, (next value).Proper stalls) : (proceed step next).Proper stalls := by
  cases step with
  | error error => exact .done
  | ok value => exact proper value

theorem proper_listener (stalls : Prop) (config : Config) (fresh : PrivateKey) :
    (listenerExchange config fresh).Proper stalls := by
  refine .receive (Nat.zero_le _) fun actOne => ?_
  refine proper_proceed fun responder => proper_proceed fun answer => ?_
  exact .send (.receive (Nat.zero_le _) fun actThree => .done)

theorem proper_dialer (stalls : Prop) (config : Config) (peer : PublicKey) (fresh : PrivateKey) :
    (dialerExchange config peer fresh).Proper stalls := by
  refine proper_proceed fun initiator => .send (.receive (Nat.zero_le _) fun actTwo => ?_)
  exact proper_proceed fun session => .send .done

/-- What is left of the conversation of an upgrade leads on, from what was said to it and what it has
given, to where the whole of it would come. -/
structure Leads (tape : ω → Option Tape) (takes : Except NetworkError Unit) (stalls : Prop)
    (whole : Exchange Session) (said : Tape) (given : List Bytes) (left : Exchange Session) (w : ω) :
    Prop where
  proper : left.Proper stalls
  comes : ∃ t, tape w = some t ∧ t.ending = said.ending ∧ ∀ more ending,
    whole.outcome takes (said.follow more ending) =
      Exchange.prepend given (left.outcome takes (t.follow more ending))

/-- How an upgrade may end after what was said to it and what it has given: as its conversation does, or
because its time has run out. -/
inductive Comes (takes : Except NetworkError Unit) (whole : Exchange Session) (said : Tape)
    (given : List Bytes) : Except Error Connection → Prop where
  | ended {answer} : whole.outcome takes said = (given, .ready answer) →
      Comes takes whole said given (answer.map Connection.ofSession)
  | timedOut : given <+: (whole.outcome takes said).1 →
      Comes takes whole said given (.error .handshakeTimeout)

def Idle (tape : ω → Option Tape) (takes : Except NetworkError Unit) (left : Exchange Session) (w : ω) :
    Prop :=
  ∃ t, tape w = some t ∧ left.outcome takes t = ([], .pending)

theorem Leads.start (proper : whole.Proper stalls) {w : ω} (holds : tape w = some said) :
    Leads tape takes stalls whole said [] whole w :=
  ⟨proper, said, holds, rfl, fun _ _ => rfl⟩

theorem Leads.congr {left : Exchange Session} {w later : ω}
    (leads : Leads tape takes stalls whole said given left w) (same : tape later = tape w) :
    Leads tape takes stalls whole said given left later := by
  obtain ⟨proper, t, holds, comes⟩ := leads
  exact ⟨proper, t, same.trans holds, comes⟩

theorem Leads.now {left : Exchange Session} {w : ω} {t : Tape}
    (leads : Leads tape takes stalls whole said given left w) (holds : tape w = some t) :
    whole.outcome takes said = Exchange.prepend given (left.outcome takes t) := by
  obtain ⟨-, _, found, same, comes⟩ := leads
  rw [holds] at found
  cases found
  have here := comes [] said.ending
  rwa [Tape.follow_nil, ← same, Tape.follow_nil] at here

theorem Leads.begins {left : Exchange Session} {w : ω}
    (leads : Leads tape takes stalls whole said given left w) :
    given <+: (whole.outcome takes said).1 := by
  obtain ⟨t, holds, -⟩ := leads.comes
  rw [leads.now holds]
  exact List.prefix_append ..

theorem Leads.hears {left : Exchange Session} {w later : ω} {t : Tape} {more : Bytes} {ending : Ending}
    (leads : Leads tape takes stalls whole said given left w) (holds : tape w = some t)
    (follows : tape later = some (t.follow more ending)) :
    Leads tape takes stalls whole (said.follow more ending) given left later := by
  obtain ⟨proper, _, found, same, comes⟩ := leads
  rw [holds] at found
  cases found
  refine ⟨proper, _, follows, rfl, fun others final => ?_⟩
  rw [Tape.follow_follow, Tape.follow_follow]
  exact comes (more ++ others) final

/-- A poll that has to wait leaves the rest of the conversation. -/
theorem Leads.waits (hands : source.Hands tape) (answers : sink.Answers tape takes stalls)
    {left next : Exchange Session} {w after : ω}
    (leads : Leads tape takes stalls whole said given left w)
    (polled : left.poll sink source w = (.pending, next, after)) :
    Leads tape takes stalls whole said (given ++ left.handed sink source w) next after ∧
      (¬stalls → source.Prompt tape → Idle tape takes next after) := by
  obtain ⟨proper, t, holds, same, comes⟩ := leads
  have polling := proper.polling hands answers holds
  rw [polled] at polling
  cases polling with
  | waits kept there ending later idle =>
    refine ⟨⟨kept, _, there, ending.trans same, fun more ending => ?_⟩, fun free prompt => ?_⟩
    · rw [comes, later, Exchange.prepend_prepend]
    · exact ⟨_, there, idle free prompt⟩

/-- A poll that ends the conversation ends it where the whole of it would. -/
theorem Leads.ends (hands : source.Hands tape) (answers : sink.Answers tape takes stalls)
    {left next : Exchange Session} {w after : ω} {answer : Except Error Session}
    (leads : Leads tape takes stalls whole said given left w)
    (polled : left.poll sink source w = (.ready answer, next, after)) :
    whole.outcome takes said = (given ++ left.handed sink source w, .ready answer) := by
  obtain ⟨t, holds, -⟩ := leads.comes
  have polling := leads.proper.polling hands answers holds
  rw [polled] at polling
  cases polling with
  | ends comesTo => rw [leads.now holds, comesTo, Exchange.prepend]

/-- What an upgrade answers comes of its conversation, or of the time that has run out for it. -/
theorem Leads.settles (hands : source.Hands tape) (answers : sink.Answers tape takes stalls)
    {u next : Upgrade} {now : Nanoseconds} {w after : ω} {result : Except Error Connection}
    (leads : Leads tape takes stalls whole said given u.exchange w)
    (polled : u.poll sink source now w = (.ready result, next, after)) :
    Comes takes whole said (given ++ u.exchange.handed sink source w) result := by
  rcases came : u.exchange.poll sink source w with ⟨answer | _, exchange, world⟩
  · rw [poll_of_ready came] at polled
    cases polled
    exact .ended (leads.ends hands answers came)
  · rw [poll_of_pending came] at polled
    split at polled
    · cases polled
      exact .timedOut (leads.waits hands answers came).1.begins
    · cases polled

theorem Comes.begins {result : Except Error Connection} (comes : Comes takes whole said given result) :
    given <+: (whole.outcome takes said).1 := by
  cases comes with
  | ended comesTo => simp [comesTo]
  | timedOut begins => exact begins

theorem Comes.follow {result : Except Error Connection}
    (comes : Comes takes whole said given result) (quiet : said.ending = .quiet) (more : Bytes)
    (ending : Ending) : Comes takes whole (said.follow more ending) given result := by
  obtain ⟨begins, same⟩ := whole.outcome_follow takes quiet more ending
  cases comes with
  | ended comesTo => exact .ended ((same _ (congrArg Prod.snd comesTo)).trans comesTo)
  | timedOut before => exact .timedOut (before.trans begins)

theorem fst_poll (sink : Sink ω) (source : Source ω) (now : Nanoseconds) (u : Upgrade) (w : ω) :
    (u.poll sink source now w).1 =
      match (u.exchange.poll sink source w).1 with
      | .ready answer => .ready (answer.map Connection.ofSession)
      | .pending =>
        if u.deadline.getD (now + u.timeout) ≤ now then .ready (.error .handshakeTimeout) else .pending := by
  rcases polled : u.exchange.poll sink source w with ⟨answer | _, exchange, after⟩
  · rw [poll_of_ready polled]
  · rw [poll_of_pending polled]

/-- What the first poll of a handshake comes to if the peer has not said anything, and nobody waits
without need. -/
theorem fst_poll_listener (hands : source.Hands tape) (answers : sink.Answers tape takes stalls)
    (free : ¬stalls) (prompt : source.Prompt tape) (config : Config) (fresh : PrivateKey)
    (now : Nanoseconds) {w : ω} {ending : Ending} (holds : tape w = some ⟨[], ending⟩) :
    ((listener config fresh).poll sink source now w).1 =
      match ending with
      | .quiet =>
        if config.handshakeTimeout = 0 then .ready (.error .handshakeTimeout) else .pending
      | .closed => .ready (.error (.truncatedAct 0))
      | .failing cause => .ready (.error (.network cause)) := by
  have polled := (proper_listener stalls config fresh).fst_poll hands answers free prompt holds
  have short := Tape.unit_short [] (show ([] : Bytes).length < Handshake.actOneLength by decide) ending
  rw [fst_poll, show (listener config fresh).exchange = listenerExchange config fresh from rfl, polled]
  have expired (n timeout : Nat) : n + timeout ≤ n ↔ timeout = 0 := by omega
  cases ending <;>
    simp [listenerExchange, Exchange.expect, Exchange.outcome, Tape.rewind, short, listener, Except.map,
      expired]

/-- The time that a conversation has makes no difference to its streams. -/
theorem world_poll (sink : Sink ω) (source : Source ω) (now : Nanoseconds) (u : Upgrade) (w : ω) :
    (u.poll sink source now w).2.2 = (u.exchange.poll sink source w).2.2 := by
  rcases polled : u.exchange.poll sink source w with ⟨answer | _, exchange, after⟩
  · rw [poll_of_ready polled]
  · rw [poll_of_pending polled]

theorem keeps_poll {β : Type} {view : ω → β} (receives : source.Keeps view) (sends : sink.Keeps view)
    (resumes : ∀ w, view (sink.resume w).2 = view w) {u next : Upgrade} {now : Nanoseconds} {w after : ω}
    {answer : Poll (Except Error Connection)} (polled : u.poll sink source now w = (answer, next, after)) :
    view after = view w := by
  have same := u.exchange.keeps_poll receives sends resumes w
  rwa [← world_poll sink source now, polled] at same

end Upgrade
end NoiseLink
