import FourInRow.Proofs.Hall.Isolation
import FourInRow.Proofs.Match.Rules

/-!
# Rejected turns

Whatever a member tries when it has no turn to take, in a match or between matches, comes to nothing
but an answer to that member.  Nobody else hears of it, though outcomes are announced to a whole
lobby; and nobody gets a seat, though the hall fills the lobby up after every turn.

Main results:

- Theorem `Lobby.Sound.verdict_ruled`: a running match answers an attempt as its rules say.
- Theorem `Lobby.turn_refused`: a rejected turn leaves the lobby as it is.
- Theorem `turns_rejected`: a rejected turn leaves the hall as it is, and one answer is all that is
  sent.
-/

namespace FourInRow

namespace Lobby

/-- What becomes of a member's attempt at a turn: the match answers it, or it is an error. -/
def verdict (l : Lobby) (p : Peer) (column : UInt8) : TurnResult :=
  match l.game? with
  | none => .error
  | some game =>
    match game.turn p.player column with
    | .ok (_, result) => result
    | .error _ => .error

section

variable {l : Lobby} {p : Peer} {column : UInt8}

theorem verdict_of_idle (hidle : l.isPlaying = false) : l.verdict p column = .error := by
  rw [verdict, game?_of_idle hidle]

theorem verdict_of_playing {game game' : Match} {accepting : Bool} {result : TurnResult}
    (hphase : l.phase = .playing game accepting)
    (hturn : game.turn p.player column = .ok (game', result)) : l.verdict p column = result := by
  simp only [verdict, game?_of_playing hphase, hturn]

/-- A running match answers an attempt as its rules say, and is not finished. -/
theorem Sound.verdict_ruled (hs : l.Sound) {game : Match} (hgame : l.game? = some game)
    (p : Peer) (column : UInt8) :
    game.Ruled p.player column (l.verdict p column) ∧ l.verdict p column ≠ .gameFinished := by
  rcases isPlaying_iff.1 (Option.isSome_of_eq_some hgame) with ⟨game', accepting, hphase⟩
  obtain rfl : game' = game := by simpa [game?_of_playing hphase] using hgame
  rcases game'.turn_eq_ok p.player column with ⟨game'', result, hturn, hturned⟩
  rw [verdict_of_playing hphase hturn]
  refine ⟨hturned.ruled, fun hfinished => hturned.ruled.gameFinished_iff.1 hfinished ?_⟩
  exact Match.isWon_eq_false_iff.1
    (Bool.or_eq_false_iff.1 (hs.running game' accepting hphase).going).1

/-- An attempt is an error exactly if no match is running. -/
theorem Sound.verdict_eq_error_iff (hs : l.Sound) (p : Peer) (column : UInt8) :
    l.verdict p column = .error ↔ l.isPlaying = false := by
  constructor
  · intro herror
    by_contra hplaying
    rcases Option.isSome_iff_exists.1 (Bool.eq_true_of_not_eq_false hplaying) with ⟨game, hgame⟩
    exact (hs.verdict_ruled hgame p column).1.ne_error herror
  · exact verdict_of_idle

/-- Between matches the member that tries is told that this is an error. -/
theorem turn_idle (hs : l.Sound) (hn : l.Numbered) (hp : p ∈ l.members)
    (hidle : l.isPlaying = false) (column : UInt8) :
    l.turn p.id column = (l, p.tell (.turnResult .error column)) := by
  have hmember := (member?_eq_some_iff hs.nodup).2 ⟨hp, rfl⟩
  rw [← announceTurn_eq hs hn hp column (by decide)]
  unfold turn
  cases hphase : l.phase with
  | playing game accepting => exact absurd hphase (phase_ne_of_idle hidle game accepting)
  | _ => simp [hmember]

/-- A rejected turn leaves the lobby as it is, and only the member that tried is told. -/
theorem turn_refused (hs : l.Sound) (hn : l.Numbered) (hp : p ∈ l.members)
    (hne : l.verdict p column ≠ .success) :
    l.turn p.id column = (l, p.tell (.turnResult (l.verdict p column) column)) := by
  by_cases hplaying : l.isPlaying = true
  · rcases isPlaying_iff.1 hplaying with ⟨game, accepting, hphase⟩
    rcases game.turn_eq_ok p.player column with ⟨game', result, hturn, -⟩
    rw [verdict_of_playing hphase hturn] at hne ⊢
    exact turn_rejected hs hn hphase hp hturn hne
  · rw [Bool.not_eq_true] at hplaying
    rw [verdict_of_idle hplaying]
    exact turn_idle hs hn hp hplaying column

end

end Lobby

namespace Hall

/-- A hall in which nobody waits in vain does nothing about a rejected turn but answer it. -/
theorem Conserves.turn_refused {h : Hall} (hs : h.Sound) (hc : h.Conserves) {l : Lobby}
    (hl : l ∈ h.lobbies) {p : Peer} (hp : p ∈ l.members) {column : UInt8}
    (hne : l.verdict p column ≠ .success) :
    h.step (.command (.turn p.id column)) =
      (h, sends (p.tell (.turnResult (l.verdict p column) column))) := by
  rcases List.getElem?_of_mem hl with ⟨n, hn⟩
  have hlodges := hs.lodges n l hn
  change h.turn p.id column = _
  rw [hc.turn_eq hs hn (hs.index_eq hn hp),
    Lobby.turn_refused hlodges.sound hlodges.numbered hp hne, setLobby_self hn]

/-- In every run in which no connection is made twice, until the hall is shut, of a hall with
settings that pass their check: when a member of a lobby tries a turn, it is an error exactly if no
match is running, and a running match, which is not finished, answers by its rules.  Unless the turn
succeeds the whole hall remains as it is, and all that is sent is that answer to the member, which
hears it if it still listens. -/
theorem turns_rejected {s : Settings} (hs : s.check = .ok ()) (d : Draws) {es : List Event}
    (hfresh : (arrivals es).Nodup) (hopen : Event.command .shutDown ∉ es) :
    let h := ((Hall.new s d).run es).1
    ∀ l ∈ h.lobbies, ∀ p ∈ l.members, ∀ column,
      (l.verdict p column = .error ↔ l.isPlaying = false) ∧
      (∀ game ∈ l.game?,
        game.Ruled p.player column (l.verdict p column) ∧ l.verdict p column ≠ .gameFinished) ∧
      (l.verdict p column ≠ .success →
        h.step (.command (.turn p.id column)) =
            (h, sends (p.tell (.turnResult (l.verdict p column) column))) ∧
          (p.listening = true → (h.step (.command (.turn p.id column))).2 =
            [.send p.id (.turnResult (l.verdict p column) column)])) := by
  intro h l hl p hp column
  have hsound : h.Sound := sound_run s d hfresh
  have hc : h.Conserves := conserves_run hs d hfresh hopen
  rcases List.getElem?_of_mem hl with ⟨n, hn⟩
  have hlobby := (hsound.lodges n l hn).sound
  refine ⟨hlobby.verdict_eq_error_iff p column,
    fun game hgame => hlobby.verdict_ruled hgame p column, fun hne => ?_⟩
  have hstep := hc.turn_refused hsound hl hp hne
  refine ⟨hstep, fun hlistening => ?_⟩
  rw [hstep, Peer.tell, if_pos hlistening]
  rfl

/-- A member tries a turn in a match in which the other one begins, while somebody waits for a
seat. -/
theorem turns_rejected_of_waiting :
    let s : Settings := { Settings.default with maxLobbies := 1 }
    let es : List Event :=
      [.command (.connect ⟨1⟩), .command (.connect ⟨2⟩), .command (.connect ⟨3⟩),
        .command (.ready ⟨1⟩), .command (.ready ⟨2⟩)]
    let h := ((Hall.new s []).run es).1
    s.check = .ok () ∧ (arrivals es).Nodup ∧ Event.command .shutDown ∉ es ∧
      h.queue.map Peer.id = [⟨3⟩] ∧
      h.step (.command (.turn ⟨2⟩ 3)) = (h, [.send ⟨2⟩ (.turnResult .wrongPlayer 3)]) := by
  intro s es h
  have hs : s.check = .ok () := by decide
  have hfresh : (arrivals es).Nodup := by decide
  have hopen : Event.command .shutDown ∉ es := by decide
  obtain ⟨l, hl, p, hp, hid, hverdict, hlistening⟩ : ∃ l ∈ h.lobbies, ∃ p ∈ l.members,
      p.id = ⟨2⟩ ∧ l.verdict p 3 = .wrongPlayer ∧ p.listening = true := by decide +kernel
  have hne : l.verdict p 3 ≠ .success := by simp [hverdict]
  rcases (turns_rejected hs [] hfresh hopen l hl p hp 3).2.2 hne with ⟨hstep, heffects⟩
  rw [hid, hverdict] at hstep heffects
  have hsame := congrArg Prod.fst hstep
  exact ⟨hs, hfresh, hopen, by decide +kernel, Prod.ext hsame (heffects hlistening)⟩

end Hall

end FourInRow
