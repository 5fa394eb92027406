import NoiseLink.Proofs.Handshake.Course
import NoiseLink.Proofs.Handshake.Identities
import NoiseLink.Scenario.Connections

/-! How an upgrade conducts itself. What it gives, what it takes and how it ends is settled by the bytes of
its peer and by what follows them; it makes no difference in which pieces they come or when it is polled. A
listener gives nothing to a peer that has not brought the first act, and a dialer does not give its third
act before it has the second. -/
namespace NoiseLink

open Handshake

/-- What comes of a handshake: the acts that are given, the bytes that are taken, and how it ends. -/
structure Verdict where
  given : List Bytes
  taken : Bytes
  answer : Poll (Except Error Session)

namespace Exchange

variable {α : Type} {stalls : Prop}

theorem Proper.left_suffix {x : Exchange α} (proper : x.Proper stalls)
    (takes : Except NetworkError Unit) (t : Tape) :
    ∃ taken, t = (x.left takes t).rewind taken := by
  induction proper generalizing t with
  | done => exact ⟨[], rfl⟩
  | send proper ih | sending _ proper ih =>
    cases takes with
    | ok taken => exact ih t
    | error cause => exact ⟨[], rfl⟩
  | @receive size got next fits proper ih =>
    rw [left]
    rcases Tape.unit_cases got.toList (by simpa using fits) t with
      ⟨act, missing, rest, whole, rfl⟩ | short
    · rw [Tape.rewind_rewind, ← whole, Tape.unit_full]
      obtain ⟨taken, same⟩ := ih act rest
      refine ⟨missing ++ taken, ?_⟩
      rw [← Tape.rewind_rewind, ← same]
    · have cut : (t.rewind got.toList).unit size = _ := Tape.unit_short _ short t.ending
      obtain ⟨bytes, ending⟩ := t
      rw [cut]
      cases ending <;> exact ⟨bytes, by simp [Tape.rewind]⟩

/-- What comes of a conversation on a tape if its sends succeed. -/
structure Yields (x : Exchange Session) (t : Tape) (v : Verdict) : Prop where
  outcome : x.outcome (.ok ()) t = (v.given, v.answer)
  taken : t = (x.left (.ok ()) t).rewind v.taken

theorem Yields.unique {x : Exchange Session} {t : Tape} {v other : Verdict} (one : x.Yields t v)
    (two : x.Yields t other) : v = other := by
  obtain ⟨given, taken, answer⟩ := v
  obtain ⟨given', taken', answer'⟩ := other
  obtain ⟨rfl, rfl⟩ := Prod.mk.inj (one.outcome.symm.trans two.outcome)
  cases Tape.rewind_taken_inj.1 (one.taken.symm.trans two.taken)
  rfl

end Exchange

/-- A course that keeps to a verdict, having heard some bytes. `sees` is the verdict on any bytes. -/
structure Course.KeepsTo {ω : Type} (c : Course ω) (source : Source ω) (tape : ω → Option Tape)
    (stalls polled inTime : Prop) (sees : Tape → Verdict → Prop) (v : Verdict) (heard : Bytes)
    (rest : Tape) : Prop where
  left : tape c.world = some rest
  given : c.given <+: v.given
  taken : heard <+: v.taken
  /-- Whatever was given so far is given for the bytes that were heard so far. -/
  allowed : ∃ now, sees ⟨heard, .quiet⟩ now ∧ c.given <+: now.given
  /-- It ends as the verdict says, unless it has run out of time. -/
  answered : ∀ result, c.answer = .ready result →
    (result = .error .handshakeTimeout ∧ ¬inTime) ∨
    (c.given = v.given ∧ heard = v.taken ∧
      ∃ ended, v.answer = .ready ended ∧ result = ended.map Connection.ofSession)
  /-- It waits only for its stream, and for more than all its bytes only if the verdict is to wait. -/
  waits : c.answer = .pending → polled → ¬stalls → source.Paused tape c.world rest ∧
    (rest = ⟨[], .quiet⟩ → c.given = v.given ∧ heard = v.taken ∧ v.answer = .pending)

namespace Exchange

variable {stalls : Prop} {x next : Exchange Session} {heard : Bytes} {given : List Bytes} {rest : Tape}
  {v : Verdict}

/-- What was given and heard so far is the beginning of what will be given and taken. -/
theorem After.begins (goes : x.After (.ok ()) stalls heard given next)
    (yields : x.Yields (rest.rewind heard) v) : given <+: v.given ∧ heard <+: v.taken := by
  obtain ⟨taken, remains⟩ := goes.proper.left_suffix (.ok ()) rest
  constructor
  · have said := yields.outcome
    rw [goes.outcome, prepend] at said
    rw [← (Prod.mk.inj said).1]
    exact List.prefix_append ..
  · have took := yields.taken
    rw [goes.left] at took
    refine ⟨taken, Tape.rewind_taken_inj.1 (Eq.trans ?_ took)⟩
    rw [← Tape.rewind_rewind, ← remains]

theorem After.allowed (goes : x.After (.ok ()) stalls heard given next) {sees : Tape → Verdict → Prop}
    (total : ∀ t, ∃ v, sees t v) (yields : ∀ t v, sees t v → x.Yields t v) :
    ∃ now, sees ⟨heard, .quiet⟩ now ∧ given <+: now.given := by
  obtain ⟨now, seen⟩ := total ⟨heard, .quiet⟩
  have nothing : Tape.rewind ⟨[], .quiet⟩ heard = ⟨heard, .quiet⟩ := by
    rw [Tape.rewind, List.append_nil]
  exact ⟨now, seen, (goes.begins (nothing ▸ yields _ _ seen)).1⟩

/-- A conversation that has heard all and cannot go on has come to what it will come to. -/
theorem After.stops (goes : x.After (.ok ()) stalls heard given next)
    (idle : next.outcome (.ok ()) ⟨[], .quiet⟩ = ([], .pending))
    (yields : x.Yields (Tape.rewind ⟨[], .quiet⟩ heard) v) :
    given = v.given ∧ heard = v.taken ∧ v.answer = .pending := by
  have said := yields.outcome
  rw [goes.outcome, idle, prepend, List.append_nil] at said
  obtain ⟨same, waits⟩ := Prod.mk.inj said
  refine ⟨same, ?_, waits.symm⟩
  obtain ⟨more, all⟩ := (goes.begins yields).2
  have took := congrArg Tape.bytes yields.taken
  have long := congrArg List.length took
  have long' := congrArg List.length all
  simp only [Tape.rewind, List.append_nil, List.length_append] at long long'
  have none : more = [] := List.eq_nil_of_length_eq_zero (by omega)
  rw [← all, none, List.append_nil]

end Exchange

namespace Upgrade

variable {ω : Type} {source : Source ω} {tape : ω → Option Tape} {stalls polled inTime : Prop}
  {x : Exchange Session} {sees : Tape → Verdict → Prop} {said : Tape} {v : Verdict} {c : Course ω}

/-- Whatever comes of an upgrade keeps to the verdict on its tape. -/
theorem Coming.keepsTo (coming : Coming source tape (.ok ()) stalls x said polled inTime c)
    (total : ∀ t, ∃ v, sees t v) (yields : ∀ t v, sees t v → x.Yields t v) (seen : sees said v) :
    ∃ heard rest, said = rest.rewind heard ∧
      c.KeepsTo source tape stalls polled inTime sees v heard rest := by
  have yielded := yields said v seen
  cases coming with
  | @waits rest heard pending same holds goes idle =>
    subst same
    obtain ⟨given, taken⟩ := goes.begins yielded
    refine ⟨heard, rest, rfl, holds, given, taken, goes.allowed total yields, ?_, ?_⟩
    · intro result ready
      rw [pending] at ready
      cases ready
    · intro _ asked free
      obtain ⟨paused, stuck⟩ := idle asked free
      refine ⟨paused, ?_⟩
      rintro rfl
      exact goes.stops stuck yielded
  | @ends rest answer heard ready same holds comesTo leaves allowed =>
    obtain ⟨now, nowSeen⟩ := total ⟨heard, .quiet⟩
    obtain ⟨given, ended⟩ := Prod.mk.inj (comesTo.symm.trans yielded.outcome)
    have taken : heard = v.taken := by
      have took := yielded.taken
      rw [leaves] at took
      exact Tape.rewind_taken_inj.1 (same.symm.trans took)
    refine ⟨heard, rest, same, holds, given ▸ List.prefix_rfl, taken ▸ List.prefix_rfl,
      ⟨now, nowSeen, ?_⟩, ?_, ?_⟩
    · rw [← allowed, (yields _ _ nowSeen).outcome]
    · intro result came
      rw [ready] at came
      cases came
      exact .inr ⟨given, taken, answer, ended.symm, rfl⟩
    · intro pending
      rw [ready] at pending
      cases pending
  | @timedOut rest next heard ready late same holds goes =>
    subst same
    obtain ⟨given, taken⟩ := goes.begins yielded
    refine ⟨heard, rest, rfl, holds, given, taken, goes.allowed total yields, ?_, ?_⟩
    · intro result came
      rw [ready] at came
      cases came
      exact .inl ⟨rfl, late⟩
    · intro pending
      rw [ready] at pending
      cases pending

/-- An upgrade that conducts itself as the verdicts on its tape say, and takes no more than `most` bytes. -/
def Conducts (u : Upgrade) (sees : Tape → Verdict → Prop) (most : Nat) : Prop :=
  ∀ said, ∃ v, (∀ other, sees said other ↔ other = v) ∧ v.taken.length ≤ most ∧
    ∀ {ω : Type} {sink : Sink ω} {source : Source ω} {tape : ω → Option Tape} {stalls : Prop}
      {schedule : List (Occasion ω)} {w : ω}, source.Hands tape → sink.Answers tape (.ok ()) stalls →
      Steady tape schedule → tape w = some said →
      ∃ heard rest, said = rest.rewind heard ∧
        (u.course sink source schedule w).KeepsTo source tape stalls (schedule ≠ []) (u.InTime schedule)
          sees v heard rest

theorem conducts_of_yields {u : Upgrade} {most : Nat} (proper : ∀ stalls, u.exchange.Proper stalls)
    (total : ∀ t, ∃ v, sees t v) (yields : ∀ t v, sees t v → u.exchange.Yields t v)
    (bounded : ∀ t v, sees t v → v.taken.length ≤ most) : u.Conducts sees most := by
  intro said
  obtain ⟨v, seen⟩ := total said
  refine ⟨v, fun other => ⟨fun also => (yields said other also).unique (yields said v seen), ?_⟩,
    bounded said v seen, ?_⟩
  · rintro rfl
    exact seen
  · intro ω sink source tape stalls schedule w hands answers steady holds
    exact (coming hands answers steady (proper stalls) holds).keepsTo total yields seen

end Upgrade

inductive Error.Refuses : Error → Prop where
  | version {found} : Refuses (.invalidVersion found)
  | key : Refuses .invalidPublicKey
  | authentication : Refuses .handshakeAuthentication

/-- What becomes of waiting for an act of this size if its tape has less. -/
inductive Cut (size : Nat) : Tape → Poll (Except Error Session) → Prop where
  | quiet {got} : got.length < size → Cut size ⟨got, .quiet⟩ .pending
  | closed {got} : got.length < size →
      Cut size ⟨got, .closed⟩ (.ready (.error (.truncatedAct got.length)))
  | failing {got cause} : got.length < size →
      Cut size ⟨got, .failing cause⟩ (.ready (.error (.network cause)))

theorem Cut.short {size : Nat} {t : Tape} {answer : Poll (Except Error Session)}
    (cut : Cut size t answer) : t.bytes.length < size := by
  cases cut with
  | quiet few | closed few | failing few => exact few

theorem Tape.act_or_cut (size : Nat) (t : Tape) :
    (∃ (act : Octets size) (rest : Tape), t = rest.rewind act.bytes) ∨ ∃ answer, Cut size t answer := by
  rcases Tape.unit_cases [] (Nat.zero_le size) t with ⟨act, missing, rest, whole, rfl⟩ | short
  · exact .inl ⟨act, rest, by rw [whole, List.nil_append]⟩
  · obtain ⟨got, ending⟩ := t
    refine .inr ?_
    cases ending with
    | quiet => exact ⟨_, .quiet short⟩
    | closed => exact ⟨_, .closed short⟩
    | failing cause => exact ⟨_, .failing short⟩

namespace Exchange

theorem yields_done (result : Except Error Session) (t : Tape) :
    (done result).Yields t ⟨[], [], .ready result⟩ :=
  ⟨rfl, rfl⟩

theorem Yields.send {next : Exchange Session} {t : Tape} {given : List Bytes} {taken : Bytes}
    {answer : Poll (Except Error Session)} (yields : next.Yields t ⟨given, taken, answer⟩) (act : Bytes) :
    (Exchange.send act next).Yields t ⟨act :: given, taken, answer⟩ :=
  ⟨by rw [Exchange.outcome, yields.outcome], yields.taken⟩

theorem Yields.expect {size : Nat} {next : Octets size → Exchange Session} {act : Octets size}
    {rest : Tape} {given : List Bytes} {taken all : Bytes} {answer : Poll (Except Error Session)}
    (whole : act.bytes ++ taken = all) (yields : (next act).Yields rest ⟨given, taken, answer⟩) :
    (Exchange.expect size next).Yields (rest.rewind act.bytes) ⟨given, all, answer⟩ := by
  constructor
  · rw [Exchange.expect, Exchange.outcome, Tape.rewind_nil, Tape.unit_full]
    exact yields.outcome
  · rw [Exchange.expect, Exchange.left, Tape.rewind_nil, Tape.unit_full, ← whole, ← Tape.rewind_rewind]
    exact congrArg (Tape.rewind · act.bytes) yields.taken

theorem yields_cut {size : Nat} {t : Tape} {answer : Poll (Except Error Session)}
    (cut : Cut size t answer) (next : Octets size → Exchange Session) :
    (Exchange.expect size next).Yields t ⟨[], t.bytes, answer⟩ := by
  have short {got : Bytes} {ending : Ending} (few : got.length < size) :
      (Tape.rewind ⟨got, ending⟩ []).unit size = _ := Tape.unit_short got few ending
  cases cut with
  | quiet few | closed few | failing few =>
    constructor
    · simp only [Exchange.expect, Exchange.outcome, short few, List.size_toArray]
    · rw [Exchange.expect, Exchange.left, short few]
      simp [Tape.rewind]

end Exchange

theorem Handshake.Accepting.refuses {t : Transcript} {mine : PrivateKey} {act : Octets 50} {error : Error}
    (accepting : Accepting t mine act (.error error)) : error.Refuses := by
  cases accepting with
  | version => exact .version
  | key => exact .key
  | tag => exact .authentication

theorem AwaitingActThree.Receiving.refuses {r : AwaitingActThree} {act : Octets 66} {error : Error}
    (receiving : r.Receiving act (.error error)) : error.Refuses := by
  cases receiving with
  | version => exact .version
  | sealing | tag => exact .authentication
  | key => exact .key

theorem Responder.refuses_of_receiveActOne {r : Responder} {act : Octets 50} {error : Error}
    (refused : r.receiveActOne act = .error error) : error.Refuses := by
  have accepting := Handshake.accepting r.transcript r.staticKey act
  rw [receiveActOne] at refused
  generalize accept r.transcript r.staticKey act = answer at accepting refused
  cases answer with
  | ok value => cases refused
  | error cause =>
    cases refused
    exact accepting.refuses

theorem AwaitingActTwo.refuses_of_actThree {i : AwaitingActTwo} {actTwo : Octets 50} {error : Error}
    (refused : i.actThree actTwo = .error error) : error.Refuses := by
  have accepting := Handshake.accepting i.transcript i.ephemeral actTwo
  rw [actThree_error_iff.1 refused] at accepting
  exact accepting.refuses

theorem Handshake.offer_of_onCurve (t : Transcript) (fresh : PrivateKey) {theirs : PublicKey}
    (valid : theirs.point.OnCurve) : ∃ act next, offer t fresh theirs = .ok (act, next) := by
  obtain ⟨other, rfl⟩ := PublicKey.exists_privateKey valid
  obtain ⟨act, next, offered, -⟩ := accept_offer t fresh other
  exact ⟨act, next, offered⟩

theorem ReceivedActOne.exists_actTwo {key : PrivateKey} {actOne : Octets 50} {received : ReceivedActOne}
    (taken : (Responder.start key).receiveActOne actOne = .ok received) (fresh : PrivateKey) :
    ∃ actTwo awaiting, received.actTwo fresh = .ok (actTwo, awaiting) := by
  have brings := accept_ok_iff_brings.1 ⟨_, Responder.receiveActOne_ok_iff.1 taken⟩
  obtain ⟨actTwo, t, offered⟩ := offer_of_onCurve received.transcript fresh brings.valid
  exact ⟨actTwo, ⟨fresh, t⟩, actTwo_ok_iff.2 ⟨t, offered, rfl⟩⟩

namespace Upgrade

inductive Listens (config : Config) (fresh : PrivateKey) : Tape → Verdict → Prop where
  | cutOne {said answer} : Cut actOneLength said answer →
      Listens config fresh said ⟨[], said.bytes, answer⟩
  | refusedOne {actOne error} {rest : Tape} :
      (Responder.start config.staticKey).receiveActOne actOne = .error error → error.Refuses →
      Listens config fresh (rest.rewind actOne.bytes) ⟨[], actOne.bytes, .ready (.error error)⟩
  | cutThree {actOne received actTwo awaiting answer} {rest : Tape} :
      (Responder.start config.staticKey).receiveActOne actOne = .ok received →
      received.actTwo fresh = .ok (actTwo, awaiting) → Cut actThreeLength rest answer →
      Listens config fresh (rest.rewind actOne.bytes)
        ⟨[actTwo.bytes], actOne.bytes ++ rest.bytes, answer⟩
  | refusedThree {actOne received actTwo awaiting actThree error} {rest : Tape} :
      (Responder.start config.staticKey).receiveActOne actOne = .ok received →
      received.actTwo fresh = .ok (actTwo, awaiting) →
      awaiting.receiveActThree actThree = .error error → error.Refuses →
      Listens config fresh ((rest.rewind actThree.bytes).rewind actOne.bytes)
        ⟨[actTwo.bytes], actOne.bytes ++ actThree.bytes, .ready (.error error)⟩
  | completed {actOne received actTwo awaiting actThree session} {rest : Tape} :
      (Responder.start config.staticKey).receiveActOne actOne = .ok received →
      received.actTwo fresh = .ok (actTwo, awaiting) →
      awaiting.receiveActThree actThree = .ok session →
      Listens config fresh ((rest.rewind actThree.bytes).rewind actOne.bytes)
        ⟨[actTwo.bytes], actOne.bytes ++ actThree.bytes, .ready (.ok session)⟩

inductive Dials (config : Config) (peer : PublicKey) (fresh : PrivateKey) : Tape → Verdict → Prop where
  | cut {actOne awaiting said answer} :
      (Initiator.start config.staticKey peer).actOne fresh = .ok (actOne, awaiting) →
      Cut actTwoLength said answer →
      Dials config peer fresh said ⟨[actOne.bytes], said.bytes, answer⟩
  | refused {actOne awaiting actTwo error} {rest : Tape} :
      (Initiator.start config.staticKey peer).actOne fresh = .ok (actOne, awaiting) →
      awaiting.actThree actTwo = .error error → error.Refuses →
      Dials config peer fresh (rest.rewind actTwo.bytes)
        ⟨[actOne.bytes], actTwo.bytes, .ready (.error error)⟩
  | completed {actOne awaiting actTwo actThree session} {rest : Tape} :
      (Initiator.start config.staticKey peer).actOne fresh = .ok (actOne, awaiting) →
      awaiting.actThree actTwo = .ok (actThree, session) →
      Dials config peer fresh (rest.rewind actTwo.bytes)
        ⟨[actOne.bytes, actThree.bytes], actTwo.bytes, .ready (.ok session)⟩

theorem exists_listens (config : Config) (fresh : PrivateKey) (said : Tape) :
    ∃ v, Listens config fresh said v := by
  rcases said.act_or_cut actOneLength with ⟨actOne, rest, rfl⟩ | ⟨answer, cut⟩
  swap
  · exact ⟨_, .cutOne cut⟩
  cases taken : (Responder.start config.staticKey).receiveActOne actOne with
  | error error => exact ⟨_, .refusedOne taken (Responder.refuses_of_receiveActOne taken)⟩
  | ok received =>
    obtain ⟨actTwo, awaiting, sent⟩ := ReceivedActOne.exists_actTwo taken fresh
    rcases rest.act_or_cut actThreeLength with ⟨actThree, rest, rfl⟩ | ⟨answer, cut⟩
    swap
    · exact ⟨_, .cutThree taken sent cut⟩
    cases met : awaiting.receiveActThree actThree with
    | error error =>
      have receiving := AwaitingActThree.receiving (ReceivedActOne.nonce_of_actTwo sent) actThree
      rw [met] at receiving
      exact ⟨_, .refusedThree taken sent met receiving.refuses⟩
    | ok session => exact ⟨_, .completed taken sent met⟩

theorem Listens.yields {config : Config} {fresh : PrivateKey} {said : Tape} {v : Verdict}
    (listens : Listens config fresh said v) : (listenerExchange config fresh).Yields said v := by
  cases listens with
  | cutOne cut => exact Exchange.yields_cut cut _
  | refusedOne refused =>
    refine .expect (List.append_nil _) ?_
    simp only [refused, proceed]
    exact Exchange.yields_done _ _
  | cutThree taken sent cut =>
    refine .expect rfl ?_
    simp only [taken, sent, proceed]
    exact (Exchange.yields_cut cut _).send _
  | refusedThree taken sent met | completed taken sent met =>
    refine .expect rfl ?_
    simp only [taken, sent, proceed]
    refine .send (.expect (List.append_nil _) ?_) _
    rw [met]
    exact Exchange.yields_done _ _

theorem Listens.bounded {config : Config} {fresh : PrivateKey} {said : Tape} {v : Verdict}
    (listens : Listens config fresh said v) : v.taken.length ≤ 116 := by
  cases listens with
  | cutOne cut => exact Nat.le_trans (Nat.le_of_lt cut.short) (by decide)
  | refusedOne refused => simp
  | cutThree taken sent cut =>
    have few : _ < 66 := cut.short
    simp only [List.length_append, Octets.length_bytes]
    omega
  | refusedThree taken sent met | completed taken sent met => simp

theorem exists_dials (config : Config) {peer : PublicKey} (valid : peer.point.OnCurve)
    (fresh : PrivateKey) (said : Tape) : ∃ v, Dials config peer fresh said v := by
  obtain ⟨actOne, t, offered⟩ := offer_of_onCurve (opening peer) fresh valid
  have sent : (Initiator.start config.staticKey peer).actOne fresh = .ok (actOne, _) :=
    Initiator.actOne_ok_iff.2 ⟨t, offered, rfl⟩
  rcases said.act_or_cut actTwoLength with ⟨actTwo, rest, rfl⟩ | ⟨answer, cut⟩
  swap
  · exact ⟨_, .cut sent cut⟩
  cases met : AwaitingActTwo.actThree ⟨config.staticKey, peer, fresh, t⟩ actTwo with
  | error error => exact ⟨_, .refused sent met (AwaitingActTwo.refuses_of_actThree met)⟩
  | ok value => exact ⟨_, .completed sent met⟩

theorem Dials.yields {config : Config} {peer : PublicKey} {fresh : PrivateKey} {said : Tape}
    {v : Verdict} (dials : Dials config peer fresh said v) :
    (dialerExchange config peer fresh).Yields said v := by
  rw [dialerExchange]
  cases dials with
  | cut sent cut =>
    simp only [sent, proceed]
    exact (Exchange.yields_cut cut _).send _
  | refused sent met =>
    simp only [sent, proceed]
    refine .send (.expect (List.append_nil _) ?_) _
    rw [met]
    exact Exchange.yields_done _ _
  | completed sent met =>
    simp only [sent, proceed]
    refine .send (.expect (List.append_nil _) ?_) _
    rw [met]
    exact (Exchange.yields_done _ _).send _

theorem Dials.bounded {config : Config} {peer : PublicKey} {fresh : PrivateKey} {said : Tape}
    {v : Verdict} (dials : Dials config peer fresh said v) : v.taken.length ≤ 50 := by
  cases dials with
  | cut sent cut => exact Nat.le_of_lt cut.short
  | refused sent met | completed sent met => simp

end Upgrade

/-- A sink beside a tape, which takes whatever is sent. -/
def Tape.sink : Sink Tape where
  send _ t := (.ready (.ok ()), t)
  resume t := (.ready (.ok ()), t)
  close t := (.ready (.ok ()), t)

theorem Tape.answers_sink : Tape.sink.Answers some (.ok ()) False where
  send := by
    intro bytes w answer after t holds sent
    cases sent
    exact ⟨.inr rfl, holds⟩
  resume := False.elim

theorem Memory.Fabric.buffer_shut (f : Fabric) (i j : Nat) :
    (f.shut i).pipes[j]?.map (·.channel.buffer) = f.pipes[j]?.map (·.channel.buffer) := by
  rw [shut]
  split
  · rename_i p there
    rw [pipes_wake]
    by_cases same : i = j
    · subst same
      rw [getElem?_setPipe there, there]
      rfl
    · rw [setPipe, Array.getElem?_setIfInBounds_ne same]
  · rfl

namespace Upgrade

/-- A dialer of its own key gives up at once, whatever its generator is. -/
theorem dial_self (config : Config) (name : String) (port : Memory.Port) (generator : Generator)
    (scene : Scenario.Scene Scenario.World Scenario.Object) :
    (Scenario.beginUpgrade name port generator (checkPeer config config.staticKey.publicKey)
      (dialer config config.staticKey.publicKey)).run.run scene =
      (.error (.error .dialSelf), { scene with world.fabric := scene.world.fabric.shut port.sink }) := by
  have refused : checkPeer config config.staticKey.publicKey = .error .dialSelf := if_pos rfl
  rw [refused]
  rfl

/-- What an upgrade gives, what it takes and what it answers depends on nothing but the bytes of its peer,
whatever the pieces are in which they come and whenever it is polled. A dialer of its own key is not even
begun: no key is drawn, and its stream is closed with nothing put into it. -/
theorem conduct_by_bytes (config : Config) :
    (∀ fresh, (listener config fresh).Conducts (Listens config fresh) 116) ∧
    (∀ peer fresh, peer.point.OnCurve →
      (dialer config peer fresh).Conducts (Dials config peer fresh) 50) ∧
    ∀ name port generator scene, ∃ after : Scenario.Scene Scenario.World Scenario.Object,
      (Scenario.beginUpgrade name port generator (checkPeer config config.staticKey.publicKey)
        (dialer config config.staticKey.publicKey)).run.run scene = (.error (.error .dialSelf), after) ∧
      after = { scene with world.fabric := scene.world.fabric.shut port.sink } ∧
      ∀ pipe : Nat, after.world.fabric.pipes[pipe]?.map (·.channel.buffer) =
        scene.world.fabric.pipes[pipe]?.map (·.channel.buffer) := by
  refine ⟨fun fresh => ?_, fun peer fresh valid => ?_, fun name port generator scene => ?_⟩
  · exact conducts_of_yields (fun stalls => proper_listener stalls config fresh)
      (exists_listens config fresh) (fun _ _ => Listens.yields) fun _ _ => Listens.bounded
  · exact conducts_of_yields (fun stalls => proper_dialer stalls config peer fresh)
      (exists_dials config valid fresh) (fun _ _ => Dials.yields) fun _ _ => Dials.bounded
  · exact ⟨_, dial_self config name port generator scene, rfl, scene.world.fabric.buffer_shut port.sink⟩

/-- Ten bytes of a second act, and then the end: the dialer has given the first act, and says how much of
the second there was. -/
theorem conduct_by_bytes_of_broken_act :
    ∃ actOne awaiting c,
      (Initiator.start ⟨1, by decide, by decide⟩
        (PrivateKey.publicKey ⟨2, by decide, by decide⟩)).actOne ⟨3, by decide, by decide⟩ =
          .ok (actOne, awaiting) ∧
      (dialer { staticKey := ⟨1, by decide, by decide⟩ } (PrivateKey.publicKey ⟨2, by decide, by decide⟩)
        ⟨3, by decide, by decide⟩).course Tape.sink Tape.source [⟨id, 0⟩] ⟨List.replicate 10 0, .closed⟩ =
          c ∧
      c.given = [actOne.bytes] ∧ c.answer = .ready (.error (.truncatedAct 10)) := by
  obtain ⟨actOne, -, before, -, sent, -⟩ := first_acts ⟨1, by decide, by decide⟩
    ⟨2, by decide, by decide⟩ ⟨3, by decide, by decide⟩ ⟨4, by decide, by decide⟩
  obtain ⟨v, seen, -, runs⟩ := (conduct_by_bytes { staticKey := ⟨1, by decide, by decide⟩ }).2.1
    (PrivateKey.publicKey ⟨2, by decide, by decide⟩) ⟨3, by decide, by decide⟩
    (PrivateKey.publicKey_onCurve _) ⟨List.replicate 10 0, .closed⟩
  obtain rfl := (seen _).1 (.cut sent (.closed (by decide)))
  refine ⟨actOne, _, _, sent, rfl, ?_⟩
  have steady : Steady some [(⟨id, 0⟩ : Occasion Tape)] := by simp [Steady]
  obtain ⟨heard, rest, whole, keeps⟩ := runs Tape.hands_source Tape.answers_sink steady rfl
  revert keeps
  generalize Upgrade.course .. = c
  intro keeps
  cases answer : c.answer with
  | pending =>
    have waits := (keeps.waits answer (List.cons_ne_nil _ _) id).1
    have quiet := Tape.prompt_source _ _ waits
    cases congrArg Tape.ending (whole.trans (congrArg (Tape.rewind · heard) quiet))
  | ready result =>
    rcases keeps.answered result answer with ⟨-, late⟩ | ⟨given, -, ended, came, rfl⟩
    · exact absurd (by simp [InTime, dialer, Nanoseconds.ofSeconds]) late
    · cases came
      exact ⟨given, rfl⟩

end Upgrade
end NoiseLink
