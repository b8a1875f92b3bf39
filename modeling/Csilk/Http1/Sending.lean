import Csilk.Http1.Framing

namespace Csilk.Http1
open Csilk.Headers Csilk.Lib List

def upgradeResponse (headers : HeaderMap) : Bytes :=
  fastSerializeStatusAndControl 101 (ascii "Switching Protocols") false [] 0 (ascii "Upgrade") ++
    appendCustomHeadersFast headers ++ crlf

theorem upgradeResponse_fits_iff (m : HeaderMap) : (upgradeResponse m).length ≤ 1024 ↔
    ((chained m).map fun h => h.key.length + 4 + h.value.length).sum ≤ 988 := by
  rw [upgradeResponse, length_append, length_append, appendCustomHeadersFast_eq, unlines_headers_length]
  change 34 + _ + 2 ≤ 1024 ↔ _
  omega

theorem upgradeResponse_overflows :
    1024 < (upgradeResponse (csilkSetHeader .fresh (ascii "X") (replicate 1000 65)).headers).length := by
  decide +kernel

def statusOf (r : Response) : Nat := if r.status = 0 then 200 else r.status

def useChunked (r : Response) (isAsync : Bool) : Bool := r.body.length = 0 && isAsync

def connectionVal (keepAlive : Bool) : Bytes := if keepAlive then ascii "keep-alive" else ascii "close"

/-- What is sent for a response that is no upgrade, event stream or file. -/
def sentBytes (r : Response) (isAsync keepAlive : Bool) : Bytes :=
  let encoding := if useChunked r isAsync then ascii "Transfer-Encoding: chunked" ++ crlf else []
  let headersLen := ((chained r.headers).map fun h => h.key.length + 2 + h.value.length + 2).sum
  let bound := 128 + (getStatusText (statusOf r)).length + encoding.length + headersLen + 32
  if useChunked r isAsync then
    fastSerializeStatusAndControl (statusOf r) (getStatusText (statusOf r)) true encoding r.body.length
      (connectionVal keepAlive) ++ appendCustomHeadersFast r.headers ++ crlf
  else csilkSerializeHttp1Response r (bound + 4 + r.body.length + 1)

/-- `_csilk_handle_post_response`: whether the connection is read from again. -/
def keepsOpen (keepAlive closing : Bool) : Bool := keepAlive && !closing

def isConnection (line : Bytes) : Bool := strncasecmp line (ascii "Connection:") 11

def headLines (out : Bytes) : List Bytes := (cutHead out).elim [] fun p => splitLines p.1

def connectionLines (out : Bytes) : List Bytes := (headLines out).filter isConnection

/-- The one Connection line says whether the connection stays open. -/
def Truthful (out : Bytes) (kept : Bool) : Prop :=
  connectionLines out = [ascii "Connection: " ++ connectionVal kept]

def encodingLine (r : Response) (isAsync : Bool) : Bytes :=
  if useChunked r isAsync then ascii "Transfer-Encoding: chunked"
  else ascii "Content-Length: " ++ decimal r.body.length

def ownLines (r : Response) (isAsync keepAlive : Bool) : List Bytes :=
  [statusLine (statusOf r), encodingLine r isAsync,
    ascii "Connection: " ++ connectionVal (keepAlive || !useChunked r isAsync)]

section
variable (r : Response) (isAsync keepAlive : Bool) (h1 : 100 ≤ statusOf r) (h2 : statusOf r ≤ 999)
  (h101 : statusOf r ≠ 101)
include h1 h2 h101

theorem sentBytes_unlines : ∃ body, sentBytes r isAsync keepAlive =
    unlines (ownLines r isAsync keepAlive ++ (chained r.headers).map headerLine) ++ crlf ++ body := by
  unfold sentBytes ownLines encodingLine
  dsimp only
  split
  case isTrue hc =>
    refine ⟨[], ?_⟩
    rw [fastSerializeStatusAndControl_control h1 h2, if_neg h101, appendCustomHeadersFast_eq, hc,
      unlines_append]
    simp [unlines]
  case isFalse hc =>
    refine ⟨r.body, ?_⟩
    have hsum : (fun h : Header => h.key.length + 2 + h.value.length + 2) =
        fun h => h.key.length + 4 + h.value.length := funext fun h => by omega
    rw [csilkSerializeHttp1Response, if_neg (Nat.succ_ne_zero _), if_neg (by rw [hsum, ← statusOf]; omega),
      ← statusOf, fastSerializeStatusAndControl_control h1 h2, if_neg h101, appendCustomHeadersFast_eq,
      unlines_append]
    simp [unlines, hc, connectionVal]

theorem sentBytes_lines (hr : Sound r.headers) : headLines (sentBytes r isAsync keepAlive) =
    ownLines r isAsync keepAlive ++ (chained r.headers).map headerLine := by
  obtain ⟨body, hout⟩ := sentBytes_unlines r isAsync keepAlive h1 h2 h101
  have hown : ∀ l ∈ ownLines r isAsync keepAlive, l ≠ [] ∧ IsLine l := by
    refine forall_mem_cons.2 ⟨statusLine_isLine _, forall_mem_cons.2 ⟨?_, forall_mem_singleton.2 ?_⟩⟩
    · unfold encodingLine
      split
      · exact ⟨by decide, by decide, by decide⟩
      · exact ⟨by simp [ascii], isLine_append ⟨by decide, by decide⟩ (isLine_decimal _)⟩
    · cases (keepAlive || !useChunked r isAsync) <;> exact ⟨by decide, by decide, by decide⟩
  obtain ⟨head, hcut, hsplit⟩ := cutHead_unlines (append_ne_nil_of_left_ne_nil (cons_ne_nil _ _) _)
    (forall_mem_append.2 ⟨hown, headerLines_isLine hr⟩) body
  rw [hout, headLines, ownLines, hcut]
  exact hsplit

theorem sentBytes_connection (hr : Sound r.headers)
    (hcustom : ∀ h ∈ r.headers.entries, isConnection (headerLine h) = false) :
    connectionLines (sentBytes r isAsync keepAlive) =
      [ascii "Connection: " ++ connectionVal (keepAlive || !useChunked r isAsync)] := by
  have hnone : ((chained r.headers).map headerLine).filter isConnection = [] := by
    simpa [filter_eq_nil_iff, hr.chained.mem_iff] using hcustom
  have henc : isConnection (encodingLine r isAsync) = false := by
    unfold encodingLine
    split <;> simp [isConnection, strncasecmp, ascii, foldByte]
  rw [connectionLines, sentBytes_lines r isAsync keepAlive h1 h2 h101 hr, ownLines]
  generalize (keepAlive || !useChunked r isAsync) = kept
  have hs : isConnection (statusLine (statusOf r)) = false := by
    simp [isConnection, statusLine, strncasecmp, ascii, foldByte]
  have hc : isConnection (ascii "Connection: " ++ connectionVal kept) = true := by
    simp [isConnection, strncasecmp, ascii]
  simp [hs, henc, hc, hnone]

end

end Csilk.Http1
