import NoiseLink.Listener

/-! What it takes for an upgrade to end. However often it is polled and wherever it has to wait, it comes
to an end only as its conversation does, so a connection that a listener makes of one belongs to a peer
that has proved its key. -/
namespace NoiseLink

namespace Exchange

variable {ω α : Type} {sink : Sink ω} {source : Source ω}

/-- How a conversation ends if the right acts are said to it. -/
inductive Ends : Exchange α → Except Error α → Prop where
  | done {result} : Ends (done result) result
  | send {act next result} : Ends next result → Ends (send act next) result
  | sending {next result} : Ends next result → Ends (sending next) result
  | receive {size got next act result} : Ends (next act) result →
      Ends (receive size got next) result

theorem of_ends_done {result other : Except Error α} (ends : (done result).Ends other) :
    result = other := by
  cases ends
  rfl

theorem ends_of_ready {x next : Exchange α} {w after : ω} {value : α}
    (polled : x.poll sink source w = (.ready (.ok value), next, after)) : x.Ends (.ok value) := by
  induction x generalizing w with
  | done result =>
    rw [poll] at polled
    cases polled
    exact .done
  | send act rest ih =>
    rw [poll] at polled
    split at polled
    · exact .send (ih polled)
    · cases polled
    · cases polled
  | sending rest ih =>
    rw [poll] at polled
    split at polled
    · exact .sending (ih polled)
    · cases polled
    · cases polled
  | receive size got rest ih =>
    rw [poll] at polled
    split at polled
    · exact .receive (ih _ polled)
    · cases polled
    · cases polled
    · cases polled

theorem Ends.of_pending {x next : Exchange α} {w after : ω} {result : Except Error α}
    (polled : x.poll sink source w = (.pending, next, after)) (ends : next.Ends result) :
    x.Ends result := by
  induction x generalizing w with
  | done answer =>
    rw [poll] at polled
    cases polled
  | send act rest ih =>
    rw [poll] at polled
    split at polled
    · exact .send (ih polled)
    · cases polled
    · cases polled
      cases ends with
      | sending ends => exact .send ends
  | sending rest ih =>
    rw [poll] at polled
    split at polled
    · exact .sending (ih polled)
    · cases polled
    · cases polled
      exact ends
  | receive size got rest ih =>
    rw [poll] at polled
    split at polled
    · exact .receive (ih _ polled)
    · cases polled
      cases ends with
      | receive ends => exact .receive ends
    · cases polled
    · cases polled

end Exchange

namespace Upgrade

variable {ω : Type} {sink : Sink ω} {source : Source ω}

/-- What an upgrade can become while it is polled on a pair of streams and has to wait each time. -/
inductive Polled (sink : Sink ω) (source : Source ω) (u : Upgrade) : Upgrade → Prop where
  | start : Polled sink source u u
  | poll {v now w next after} : Polled sink source u v →
      v.poll sink source now w = (.pending, next, after) → Polled sink source u next

theorem exchange_of_pending {u next : Upgrade} {now : Nanoseconds} {w after : ω}
    (polled : u.poll sink source now w = (.pending, next, after)) :
    u.exchange.poll sink source w = (.pending, next.exchange, after) ∧ next.deadline.isSome := by
  rw [poll] at polled
  split at polled
  · cases polled
  · cases polled
  · rename_i waits
    split at polled
    · cases polled
    · cases polled
      exact ⟨waits, rfl⟩

theorem exchange_of_ready {u next : Upgrade} {now : Nanoseconds} {w after : ω} {c : Connection}
    (polled : u.poll sink source now w = (.ready (.ok c), next, after)) : ∃ session,
    u.exchange.poll sink source w = (.ready (.ok session), next.exchange, after) ∧
      c = .ofSession session := by
  rw [poll] at polled
  split at polled
  · rename_i ended
    cases polled
    exact ⟨_, ended, rfl⟩
  · cases polled
  · split at polled <;> cases polled

/-- An upgrade ends well only if its conversation can. -/
theorem Polled.ends {u v next : Upgrade} {now : Nanoseconds} {w after : ω} {c : Connection}
    (polled : Polled sink source u v) (done : v.poll sink source now w = (.ready (.ok c), next, after)) :
    ∃ session, u.exchange.Ends (.ok session) ∧ c = .ofSession session := by
  obtain ⟨session, ended, rfl⟩ := exchange_of_ready done
  refine ⟨session, ?_, rfl⟩
  have last := Exchange.ends_of_ready ended
  clear done ended
  induction polled with
  | start => exact last
  | poll _ waits ih => exact ih (last.of_pending (exchange_of_pending waits).1)

theorem ends_proceed {α β : Type} {step : Except Error β} {next : β → Exchange α} {value : α}
    (ends : (proceed step next).Ends (.ok value)) : ∃ b, step = .ok b ∧ (next b).Ends (.ok value) := by
  cases step with
  | error error => cases ends
  | ok b => exact ⟨b, rfl, ends⟩

end Upgrade

/-- A connection to a peer that has proved its static key to a listener: it sent a first act that was
made for the listener's key, and after the answer a third in which its own was sealed. -/
def Connection.Authentic (config : Config) (c : Connection) : Prop :=
  ∃ actOne taken fresh actTwo awaiting actThree session,
    (Responder.start config.staticKey).receiveActOne actOne = .ok taken ∧
    taken.actTwo fresh = .ok (actTwo, awaiting) ∧
    awaiting.receiveActThree actThree = .ok session ∧ c = .ofSession session

/-- An upgrade that was begun for a raw connection and polled on its streams and no others has come to
this answer. -/
def Ports.Settled (ports : Ports ω ρ) (config : Config) (port : ρ)
    (answer : Except Error Connection) : Prop :=
  ∃ id fresh u now w next after,
    Upgrade.Polled (ports.sink port) (ports.source id port) (.listener config fresh) u ∧
      u.poll (ports.sink port) (ports.source id port) now w = (.ready answer, next, after)

theorem Ports.Settled.authentic {ports : Ports ω ρ} {config : Config} {port : ρ} {c : Connection}
    (settled : ports.Settled config port (.ok c)) : c.Authentic config := by
  obtain ⟨id, fresh, u, now, w, next, after, polled, done⟩ := settled
  obtain ⟨session, ends, made⟩ := polled.ends done
  change (Exchange.expect ..).Ends _ at ends
  cases ends with
  | @receive _ _ _ actOne _ ends =>
    obtain ⟨taken, first, ends⟩ := Upgrade.ends_proceed ends
    obtain ⟨⟨actTwo, awaiting⟩, second, ends⟩ := Upgrade.ends_proceed ends
    cases ends with
    | send ends =>
      cases ends with
      | @receive _ _ _ actThree _ ends =>
        exact ⟨actOne, taken, fresh, actTwo, awaiting, actThree, session, first, second,
          Exchange.of_ends_done ends, made⟩

end NoiseLink
