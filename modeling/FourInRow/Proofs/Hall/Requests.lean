import FourInRow.Proofs.Hall.Prompt
import FourInRow.Proofs.Lobby.Requests

/-!
# Requests in a hall

Turns are requested one at a time in every lobby.  What a member hears since its match began tells
whether it has been asked for a turn that it has not taken yet, and it has been exactly if it is the
player whose turn it is.

Main results:

- Theorem `requested_run`: the requests in a running match are those for its turns in rotation.
- Theorem `step_rejected`: a turn that fails in a match is answered, and nothing else happens.
- Theorem `requests_run`: one request is open in every running match.
-/

namespace FourInRow

namespace Hall

/-- Do the requests since the beginning of the running match stand to the match as they should? -/
def RequestedSince (l : Lobby) (log : List Effect) : Prop :=
  ∀ game accepting, l.phase = .playing game accepting → ∃ first before since,
    log = before ++ since ∧
      l.Requested game first ((mailOf since).among (l.members.map Peer.id))

/-- With settings that pass their check the members of a lobby are asked in rotation. -/
theorem kept_requestedSince {s : Settings} (hs : s.check = .ok ()) : Kept s RequestedSince where
  fresh n log game accepting hphase := by cases hphase
  advance {n l l' log effects mail} hl hadvanced hlog := by
    intro game' accepting' hphase'
    have hall : ∀ id ∈ l'.members.map Peer.id,
        id ∈ l.members.map Peer.id ∨ id ∈ l'.members.map Peer.id := fun _ hid => Or.inr hid
    rcases hadvanced.advances.requested hl.sound hl.numbered (playable_of_check hs hl) hphase' with
      ⟨hids, hrequested⟩
    have hmail : (mailOf effects).among (l'.members.map Peer.id) = mail := by
      rw [hadvanced.among_eq _ hall, Mail.among_eq_self fun e he => ?_]
      rcases hadvanced.advances.recipient_mem he with hmem | hmem
      · exact hids ▸ hmem
      · exact hmem
    rcases hrequested with ⟨first, hbegun⟩ | ⟨game, accepting, hphase, hgoes⟩
    · refine ⟨first, log, effects, rfl, ?_⟩
      rw [hmail]
      exact hbegun
    · rcases hlog game accepting hphase with ⟨first, before, since, rfl, hsince⟩
      refine ⟨first, before, since ++ effects, List.append_assoc .., ?_⟩
      rw [mailOf_append, Mail.among_append, hmail, hids]
      exact hgoes first _ hsince

/-- The requests in a running match are those for its turns in rotation. -/
theorem requested_run {s : Settings} (hs : s.check = .ok ()) (d : Draws) {es : List Event}
    (hfresh : (arrivals es).Nodup) {n : Nat} {l : Lobby}
    (hl : ((Hall.new s d).run es).1.lobbies[n]? = some l) :
    RequestedSince l ((Hall.new s d).run es).2 :=
  lobbies_run (kept_requestedSince hs) d hfresh n l hl

/-! ## Turns that fail -/

theorem setLobby_self {h : Hall} {n : Nat} {l : Lobby} (hl : h.lobbies[n]? = some l) :
    h.setLobby n l = h := by
  have hset : h.lobbies.set n l = h.lobbies := by
    rcases List.getElem?_eq_some_iff.1 hl with ⟨hn, rfl⟩
    exact List.set_getElem_self hn
  rw [setLobby, hset]

/-- Where no seat is free nobody gets one. -/
theorem seatFrom_of_taken {h : Hall} {n : Nat} (htaken : h.hasFreeSeat n = false)
    (queue : List Peer) : seatFrom n h queue = (h, queue, []) := by
  cases queue with
  | nil => rfl
  | cons p rest => simp [seatFrom, htaken]

/-- Where no seat is free nothing is done about the queue. -/
theorem backfill_of_taken {h : Hall} {n : Nat} (htaken : h.hasFreeSeat n = false) :
    h.backfill n = (h, []) := by
  simp [backfill, seatFrom_of_taken htaken]

/-- A turn that fails in a match is answered, and nothing else happens. -/
theorem step_rejected {h : Hall} (hs : h.Sound) {l : Lobby} (hl : l ∈ h.lobbies)
    {game game' : Match} {accepting : Bool} (hphase : l.phase = .playing game accepting) {p : Peer}
    (hp : p ∈ l.members) {column : UInt8} {result : TurnResult}
    (hturn : game.turn p.player column = .ok (game', result)) (hne : result ≠ .success) :
    h.step (.command (.turn p.id column)) = (h, sends (p.tell (.turnResult result column))) := by
  rcases List.getElem?_of_mem hl with ⟨n, hn⟩
  have hlodges := hs.lodges n l hn
  have htaken : h.hasFreeSeat n = false := by
    rw [Hall.hasFreeSeat, hn, Option.any_some]
    exact hlodges.sound.no_free_seat_of_full (hlodges.sound.running game accepting hphase).full
  change h.turn p.id column = _
  rw [turn_eq_of_find? (hs.index_eq hn hp) hn,
    Lobby.turn_rejected hlodges.sound hlodges.numbered hphase hp hturn hne, setLobby_self hn,
    backfill_of_taken htaken, List.append_nil]

/-- In every run in which no connection is made twice, of a hall with settings that pass their
check, and in every lobby with a running match: whoever has the turn is there.  The members, as far
as they listen, have been asked since the match was announced to them for the turns of its players
in rotation, one more than have been taken, each only for its own; and whoever listens has been
asked for just the turns that it has taken, and for one more if it has the turn.  A turn that fails
is answered to the member that tried, and changes nothing else. -/
theorem requests_run {s : Settings} (hs : s.check = .ok ()) (d : Draws) (es : List Event)
    (hfresh : (arrivals es).Nodup) :
    let h := ((Hall.new s d).run es).1
    let log := ((Hall.new s d).run es).2
    ∀ l ∈ h.lobbies, ∀ game accepting, l.phase = .playing game accepting →
      (∃ p ∈ l.members, p.player = game.current) ∧
      (∃ first before since, log = before ++ since ∧
        let mail := (mailOf since).among (l.members.map Peer.id)
        l.Requested game first mail ∧
          ((∀ p ∈ l.members, p.listening = true) → mail.requests.map Prod.snd =
            (List.range (game.turns + 1)).map (Match.rota s.playersPerLobby first))) ∧
      ∀ p ∈ l.members, ∀ column game' result, game.turn p.player column = .ok (game', result) →
        result ≠ .success → h.step (.command (.turn p.id column)) =
          (h, sends (p.tell (.turnResult result column))) := by
  intro h log l hl game accepting hphase
  have hsound : h.Sound := sound_run s d hfresh
  rcases List.getElem?_of_mem hl with ⟨n, hn⟩
  have hlodges := hsound.lodges n l hn
  rw [show h.settings = s from settings_run s d hfresh] at hlodges
  have hplayable := playable_of_check hs hlodges
  rcases requested_run hs d hfresh hn game accepting hphase with
    ⟨first, before, since, hlog, hrequested⟩
  have hcapacity : UInt8.ofNat l.capacity = s.playersPerLobby := by
    rw [hlodges.capacity_eq]
    exact UInt8.ofNat_toNat
  have hfull := (hlodges.sound.running game accepting hphase).full
  refine ⟨?_, ⟨first, before, since, hlog, hrequested, fun hlisten => ?_⟩, ?_⟩
  · rw [hrequested.stems.current_eq (hplayable.minPlayers_le hlodges.sound)]
    exact Lobby.exists_member_rota hlodges.sound hlodges.numbered hplayable hfull first game.turns
  · rw [← hcapacity]
    exact hrequested.map_eq hlodges.sound hlodges.numbered hplayable hfull hlisten
  · intro p hp column game' result hturn hne
    exact step_rejected hsound hl hphase hp hturn hne

/-- A turn is taken in a match of two, and another one fails: two requests have been made. -/
theorem requests_run_of_two :
    let es : List Event :=
      [.command (.connect ⟨1⟩), .command (.connect ⟨2⟩), .command (.ready ⟨1⟩),
        .command (.ready ⟨2⟩), .command (.turn ⟨2⟩ 3), .command (.turn ⟨2⟩ 4)]
    let run := (Hall.new Settings.default [5]).run es
    Settings.default.check = .ok () ∧ (arrivals es).Nodup ∧
      ∃ l ∈ run.1.lobbies, ∃ game accepting, l.phase = .playing game accepting ∧
        ∃ first before since, run.2 = before ++ since ∧
          ((mailOf since).among (l.members.map Peer.id)).requests.map Prod.snd =
            (List.range 2).map (Match.rota 2 first) := by
  intro es run
  have hs : Settings.default.check = .ok () := by decide
  have hfresh : (arrivals es).Nodup := by decide
  obtain ⟨l, hl, hturns, hlisten⟩ : ∃ l ∈ run.1.lobbies, l.game?.map Match.turns = some 1 ∧
      ∀ p ∈ l.members, p.listening = true := by decide +kernel
  rcases Option.map_eq_some_iff.1 hturns with ⟨game, hgame, hone⟩
  rcases Lobby.isPlaying_iff.1 (Option.isSome_of_eq_some hgame) with ⟨game', accepting, hphase⟩
  rw [Lobby.game?_of_playing hphase] at hgame
  cases hgame
  rcases (requests_run hs [5] es hfresh l hl game accepting hphase).2.1 with
    ⟨first, before, since, hlog, -, hrequests⟩
  refine ⟨hs, hfresh, l, hl, game, accepting, hphase, first, before, since, hlog, ?_⟩
  rw [hrequests hlisten, hone]
  rfl

/-- A request is lost to somebody who does not listen any more: though a match has begun, and the
player who begins is there, nobody has been asked. -/
theorem request_lost :
    let es : List Event :=
      [.command (.connect ⟨1⟩), .command (.connect ⟨2⟩), .hangUp ⟨1⟩, .command (.ready ⟨1⟩),
        .command (.ready ⟨2⟩)]
    let run := (Hall.new Settings.default []).run es
    Settings.default.check = .ok () ∧ (arrivals es).Nodup ∧
      newestStart (messagesTo run.2 ⟨2⟩) = some (.gameStart 2 7 6 1) ∧
      ∃ l ∈ run.1.lobbies, ∃ game ∈ l.game?, (∃ p ∈ l.members, p.player = game.current) ∧
        (mailOf run.2).requests.length ≠ game.turns + 1 := by
  decide +kernel

end Hall

end FourInRow
