import Mathlib.Logic.Function.Basic
import Szczupak.Desktop.FrameCore
import Szczupak.Desktop.WindowShellCore

/-!
The panels of the desktop, `desktop/runtime.c`: the files with their selection, and the network.
-/

namespace Szczupak

def panelLineMax : Nat := 14
def filesEntryMax : Nat := 96
def filesHeaderLines : Nat := 2
def panelRefreshTicks : UInt64 := 50
def netProbeIntervalTicks : UInt64 := 500
def netPingTimeoutMs : UInt32 := 140
def netDnsTimeoutMs : UInt32 := 180

structure FilesEntry where
  name : List UInt8
  isDir : Bool
  isParent : Bool
deriving DecidableEq

/-- `lines` are as many as `files_line_count` says, `entries` as `files_entry_count`. -/
structure FilesPanel where
  cwd : List UInt8
  lines : List (List UInt8)
  lineToEntry : List Int
  entries : List FilesEntry
  selectedEntry : Int
  scrollOffset : Nat
  lastClickTick : UInt64
  lastClickEntry : Int
  status : List UInt8

structure NetPanel where
  lines : List (List UInt8)
  lastPingMs : Int32
  lastPingOk : Int32
  lastDnsIp : List UInt8
  lastDnsOk : Int32
  lastProbeTick : UInt64

structure DesktopState extends DesktopRuntime where
  shellState : WindowShell
  files : FilesPanel
  net : NetPanel
  lastPanelRefreshTick : UInt64
  dragOffX : Int32
  dragOffY : Int32

abbrev shellWindowIdx : Fin windowCount := 0
abbrev filesWindowIdx : Fin windowCount := 1
abbrev networkWindowIdx : Fin windowCount := 2

def DesktopState.setWindow (rt : DesktopState) (i : Fin windowCount)
    (w : DesktopWindow) : DesktopState :=
  { rt with windows := Function.update rt.windows i w }

def syncShellWindow (rt : DesktopState) : DesktopState :=
  rt.setWindow shellWindowIdx (shellSyncWindow rt.shellState (rt.windows shellWindowIdx))

def panelIsPrintable (c : UInt8) : Bool := 32 ≤ c && c ≤ 126

def filesPathHasElfExt (path : List UInt8) : Bool :=
  path.length ≥ 4 && (path.drop (path.length - 4)).map upperAscii == cText ".ELF"

/-- The path without what passes at its end, but not without its first byte. -/
def trimEnd (test : UInt8 → Bool) : List UInt8 → List UInt8
  | [] => []
  | first :: rest => first :: (rest.reverse.dropWhile test).reverse

def filesBuildChildPath (cwd name : List UInt8) (outSize : Nat) : Option (List UInt8) :=
  let trimmed := ((shellCopyCstr shellPathMax name).reverse.dropWhile (· == 47)).reverse
  if outSize < 2 ∨ trimmed = [] then none
  else if cwd = [47] then
    if trimmed.length + 2 ≥ outSize then none else some (47 :: trimmed)
  else if cwd.length + 1 + trimmed.length ≥ outSize then none
  else some (cwd ++ 47 :: trimmed)

def filesParentPath (cwd : List UInt8) (outSize : Nat) : List UInt8 :=
  let out := trimEnd (· == 47) (shellCopyCstr outSize cwd)
  let out := trimEnd (· != 47) out
  let out := if out.length > 1 then out.dropLast else out
  if out = [] then [47] else out

def filesApplyCwd (rt : DesktopState) (newCwd : List UInt8) : Bool × DesktopState :=
  if newCwd.head? ≠ some 47 ∨ rt.shellState.cwd = newCwd then (false, rt)
  else
    (true, { rt with shellState := { rt.shellState with
      prevCwd := rt.shellState.cwd, cwd := shellCopyCstr shellPathMax newCwd } })

def filesAddEntry (name : List UInt8) (isDir isParent : Bool) (entries : List FilesEntry) :
    List FilesEntry :=
  if entries.length ≥ filesEntryMax then entries
  else entries ++ [⟨shellCopyCstr shellPathMax name, isDir, isParent⟩]

def filesVisibleSlots : Nat := panelLineMax - filesHeaderLines

def filesScroll (offset selected count : Nat) : Nat :=
  if count ≤ filesVisibleSlots then 0
  else
    let offset := if offset ≥ count then count - 1 else offset
    let offset := if selected < offset then selected else offset
    if selected ≥ offset + filesVisibleSlots then selected - filesVisibleSlots + 1 else offset

def filesLine (selected : Bool) (entry : FilesEntry) : List UInt8 :=
  bufLine ((if selected then cText "> " else cText "  ") ::
    if entry.isParent then [cText "../"] else entry.name :: if entry.isDir then [cText "/"] else [])

def kFilesHint : List UInt8 := cText "J/K select  O/Enter open  U up  D delete"

def filesPanelView (cwd : List UInt8) (panel : FilesPanel) : FilesPanel :=
  let entries := if panel.entries = [] then filesAddEntry (cText "..") true true [] else panel.entries
  let selected := if panel.selectedEntry < 0 ∨ panel.selectedEntry.toNat ≥ entries.length then 0
    else panel.selectedEntry
  let start := filesScroll panel.scrollOffset selected.toNat entries.length
  let shown := (List.range' start (entries.length - start)).take filesVisibleSlots
  let rows := shown.map fun (idx : Nat) =>
    filesLine ((idx : Int) == selected) (entries.getD idx ⟨[], false, false⟩)
  let header := [bufLine [cText "Path: ", cwd], if panel.status ≠ [] then panel.status else kFilesHint]
  { panel with
    entries, selectedEntry := selected, scrollOffset := start
    lines := header ++ if rows = [] then [cText "  (empty)"] else rows
    lineToEntry := [-1, -1] ++ shown.map (fun idx => (idx : Int)) ++ List.replicate
      (filesVisibleSlots - shown.length) (-1) }

def filesSelectedLine (panel : FilesPanel) : Int32 :=
  match ((List.range panel.lines.length).drop filesHeaderLines).find? fun i =>
      panel.lineToEntry.getD i (-1) == panel.selectedEntry with
  | some i => Int32.ofNat i
  | none => -1

def filesRebuildView (rt : DesktopState) : DesktopState :=
  let panel := filesPanelView rt.shellState.cwd rt.files
  { rt with files := panel }.setWindow filesWindowIdx
    { rt.windows filesWindowIdx with lines := panel.lines.map some, selectedLine := filesSelectedLine panel }

def filesSetStatus (rt : DesktopState) (status : String) : DesktopState :=
  { rt with files := { rt.files with status := cText status } }

def filesListedEntry (line : List UInt8) : Option (List UInt8 × Bool) :=
  let entry := (line.filter panelIsPrintable).take (shellPathMax - 1)
  let name := (entry.reverse.dropWhile (· == 47)).reverse
  if name = [] ∨ name = cText "(empty)" then none else some (name, entry.getLast? == some 47)

def filesListing (listing : List UInt8) : List (List UInt8 × Bool) :=
  ((listing.takeWhile (· ≠ 0)).splitOnP fun c => c == 13 || c == 10).filterMap filesListedEntry

def desktopRefreshFilesPanel (answers : ShellAnswers) (rt : DesktopState) : DesktopState :=
  let parent := filesAddEntry (cText "..") true true []
  let rt :=
    match answers.listdir rt.shellState.cwd with
    | none => filesSetStatus { rt with files := { rt.files with entries := parent } } "listdir failed"
    | some listing =>
        let entries := (filesListing listing).foldl (fun entries (name, isDir) =>
          filesAddEntry name isDir false entries) parent
        { rt with files := { rt.files with entries } }
  filesRebuildView { rt with files := { rt.files with cwd := rt.shellState.cwd } }

def filesSelect (rt : DesktopState) (entryIdx : Int) : Bool × DesktopState :=
  if entryIdx = rt.files.selectedEntry then (false, rt)
  else (true, filesRebuildView { rt with files := { rt.files with selectedEntry := entryIdx } })

def desktopFilesSelectNext (rt : DesktopState) (delta : Int) : Bool × DesktopState :=
  if delta = 0 ∨ rt.files.entries = [] then (false, rt)
  else
    let next := rt.files.selectedEntry + delta
    let next := if next < 0 then 0 else next
    filesSelect rt (if next.toNat ≥ rt.files.entries.length then (rt.files.entries.length : Int) - 1
      else next)

def pointInRect (x y : Int32) (r : Rect) : Bool :=
  rectValid r && (x ≥ r.x && y ≥ r.y && x < r.x + r.w && y < r.y + r.h)

/-- The entry that is shown at a place of the screen, for `files_entry_at_point` and
`desktop_files_select_at_point`. -/
def filesEntryAtPoint (d : Display) (rt : DesktopState) (x y : Int32) : Option Nat :=
  let w := rt.windows filesWindowIdx
  let lineY0 := w.win.y + 1 + (windowTitleHeight d w.win).toInt32 + 10
  let rel := y - lineY0
  let lineIdx := rel / desktopLineAdvance d
  if !w.visible || !pointInRect x y (windowBodyRect d w) || rel < 0 || lineIdx < 0 ||
      lineIdx.toInt.toNat ≥ w.lines.length then none
  else
    let entryIdx := rt.files.lineToEntry.getD lineIdx.toInt.toNat (-1)
    if entryIdx < 0 ∨ entryIdx.toNat ≥ rt.files.entries.length then none else some entryIdx.toNat

def desktopFilesSelectAtPoint (d : Display) (rt : DesktopState) (x y : Int32) : Bool × DesktopState :=
  match filesEntryAtPoint d rt x y with
  | none => (false, rt)
  | some entryIdx => filesSelect rt entryIdx

def filesSelected (rt : DesktopState) : Option FilesEntry :=
  if rt.files.selectedEntry < 0 then none else rt.files.entries[rt.files.selectedEntry.toNat]?

def filesOpened (answers : ShellAnswers) (opened : Bool × DesktopState)
    (status : String) : DesktopState :=
  let rt := filesSetStatus opened.2 status
  desktopRefreshFilesPanel answers (if opened.1 then syncShellWindow rt else rt)

def filesOpenEntry (answers : ShellAnswers) (rt : DesktopState) (entry : FilesEntry) :
    ShellAction × DesktopState :=
  let path := filesBuildChildPath rt.shellState.cwd entry.name shellPathMax
  if entry.isParent then
    let opened := filesApplyCwd rt (filesParentPath rt.shellState.cwd shellPathMax)
    (.none, filesOpened answers opened "opened parent directory")
  else if entry.isDir then
    match path with
    | some path => (.none, filesOpened answers (filesApplyCwd rt path) "opened directory")
    | none => (.none, desktopRefreshFilesPanel answers rt)
  else
    match path with
    | none => (.none, filesRebuildView (filesSetStatus rt "path too long"))
    | some path =>
        if !filesPathHasElfExt path then
          (.none, filesRebuildView (filesSetStatus rt "open: only .ELF is executable"))
        else
          let (shellState, action) := shellRunLine answers rt.shellState path
          let rt := syncShellWindow { rt with shellState }
          (action, filesRebuildView (filesSetStatus rt "executed ELF in shell window"))

/-- The scene has changed whatever is opened, as the view is always built again. -/
def desktopFilesActivateSelected (answers : ShellAnswers) (rt : DesktopState) :
    ShellAction × Bool × DesktopState :=
  match filesSelected rt with
  | none => (.none, false, rt)
  | some entry =>
      let (action, rt) := filesOpenEntry answers rt entry
      (action, true, rt)

def desktopFilesDeleteSelected (answers : ShellAnswers) (rt : DesktopState) : Bool × DesktopState :=
  match filesSelected rt with
  | none => (false, rt)
  | some entry =>
      if entry.isParent then (true, filesRebuildView (filesSetStatus rt "delete: parent entry is virtual"))
      else
        match filesBuildChildPath rt.shellState.cwd entry.name shellPathMax with
        | none => (true, filesRebuildView (filesSetStatus rt "delete: path too long"))
        | some path =>
            let status := if answers.delete path then "delete: ok" else "delete: failed (dir not empty?)"
            (true, desktopRefreshFilesPanel answers (filesSetStatus rt status))

structure NetInfo where
  linkUp : Bool
  configured : Bool
  mac : List UInt8
  ip : List UInt8
  gateway : List UInt8
  dns : List UInt8

structure NetStats where
  rxFrames : UInt64
  txFrames : UInt64
  rxIpv4 : UInt64
  rxArp : UInt64
  rxIcmp : UInt64
  rxUdp : UInt64
  rxTcp : UInt64
  dnsQueries : UInt64

/-- What the system calls of the network answer: a ping gives its round trip. -/
structure NetAnswers where
  now : UInt64
  info : Option NetInfo
  stats : Option NetStats
  ping : List UInt8 → UInt32 → Option UInt32
  resolve : List UInt8 → UInt32 → Option (List UInt8)

def panelAddLine (lines : List (List UInt8)) (text : List UInt8) : List (List UInt8) :=
  if lines.length ≥ panelLineMax then lines else lines ++ [shellCopyCstr shellLineMax text]

def panelHexByte (v : UInt8) : List UInt8 :=
  let hex (digit : UInt8) : UInt8 := if digit < 10 then 48 + digit else 55 + digit
  [hex (v >>> 4), hex (v &&& 15)]

def panelMac (mac : List UInt8) : List (List UInt8) := (mac.map panelHexByte).intersperse (cText ":")

def panelIp (ip : List UInt8) : List (List UInt8) := (ip.map fun v => decimal v.toNat).intersperse (cText ".")

def netProbe (answers : NetAnswers) (info : NetInfo) (panel : NetPanel) : NetPanel :=
  let canProbe := info.configured && info.gateway.any (· ≠ 0)
  if canProbe && (panel.lastProbeTick = 0 || answers.now - panel.lastProbeTick ≥
    netProbeIntervalTicks) then
    let rtt := answers.ping info.gateway netPingTimeoutMs
    let dnsIp := answers.resolve (cText "example.com") netDnsTimeoutMs
    { panel with
      lastPingOk := if rtt.isSome then 1 else 0
      lastPingMs := (rtt.map UInt32.toInt32).getD (-1)
      lastDnsOk := if dnsIp.isSome then 1 else 0
      lastDnsIp := dnsIp.getD panel.lastDnsIp
      lastProbeTick := answers.now }
  else panel

def netInfoLines (info : NetInfo) (panel : NetPanel) : List (List UInt8) :=
  [if info.linkUp then cText "link: up" else cText "link: down",
    if info.configured then cText "config: ready" else cText "config: pending",
    bufLine (cText "mac: " :: panelMac info.mac),
    bufLine (cText "ip: " :: panelIp info.ip),
    bufLine (cText "gw: " :: panelIp info.gateway),
    bufLine (cText "dns: " :: panelIp info.dns),
    bufLine (cText "gw ping: " ::
      if panel.lastPingOk > 0 then [decimal panel.lastPingMs.toInt64.toUInt64.toNat, cText " ms"]
      else if panel.lastPingOk = 0 then [cText "timeout"]
      else [cText "n/a"]),
    bufLine (cText "dns test: " ::
      if panel.lastDnsOk > 0 then cText "example.com -> " :: panelIp panel.lastDnsIp
      else if panel.lastDnsOk = 0 then [cText "lookup failed"]
      else [cText "n/a"])]

def netStatsLines (stats : NetStats) : List (List UInt8) :=
  [(cText "rx:", stats.rxFrames, cText " tx:", stats.txFrames),
    (cText "ipv4:", stats.rxIpv4, cText " arp:", stats.rxArp),
    (cText "icmp:", stats.rxIcmp, cText " udp:", stats.rxUdp),
    (cText "tcp:", stats.rxTcp, cText " dnsq:", stats.dnsQueries)].map
    fun (name, count, other, otherCount) =>
    bufLine [name, decimal count.toNat, other, decimal otherCount.toNat]

def desktopRefreshNetworkPanel (answers : NetAnswers) (rt : DesktopState) : DesktopState :=
  let (lines, panel) :=
    match answers.info with
    | none => ([cText "net: unavailable"], { rt.net with lastPingOk := -1, lastDnsOk := -1 })
    | some info =>
        let panel := netProbe answers info rt.net
        (netInfoLines info panel, panel)
  let stats := (answers.stats.map netStatsLines).getD []
  let lines := (lines ++ stats).foldl panelAddLine []
  { rt with net := { panel with lines } }.setWindow networkWindowIdx
    { rt.windows networkWindowIdx with lines := lines.map some, selectedLine := -1 }

structure PanelAnswers where
  now : UInt64
  shell : ShellAnswers
  net : NetAnswers

def refreshOpen (looked : Bool) (refresh : DesktopState → DesktopState)
    (state : Bool × DesktopState) : Bool × DesktopState :=
  if looked then (true, refresh state.2) else state

def desktopRefreshDynamicPanels (answers : PanelAnswers) (rt : DesktopState) : Bool × DesktopState :=
  let periodic := answers.now - rt.lastPanelRefreshTick ≥ panelRefreshTicks
  let (changed, rt) :=
    refreshOpen ((rt.windows filesWindowIdx).visible && (rt.files.cwd ≠
      rt.shellState.cwd || periodic)) (desktopRefreshFilesPanel answers.shell) (false, rt)
  let (changed, rt) :=
    refreshOpen ((rt.windows networkWindowIdx).visible && periodic)
      (desktopRefreshNetworkPanel answers.net) (changed, rt)
  (changed, if periodic then { rt with lastPanelRefreshTick := answers.now } else rt)

end Szczupak
