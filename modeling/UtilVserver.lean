import UtilVserver.Lib.CString
import UtilVserver.Lib.BitMention
import UtilVserver.ListParser
import UtilVserver.NameTables
import UtilVserver.FlagGrammar
import UtilVserver.ErrorSpan
import UtilVserver.BoundedList
import UtilVserver.PrintBitfield
import UtilVserver.Lib.Calls
import UtilVserver.FileCfg
import UtilVserver.GeneratorLines
import UtilVserver.ShellLines
import UtilVserver.CapFiles
import UtilVserver.Lib.Transition
import UtilVserver.RpmFake
import UtilVserver.RpmFakeSync
import UtilVserver.Lib.MakeRun
import UtilVserver.StartVservers
import UtilVserver.StartupLock
import UtilVserver.StartupExclusion
import UtilVserver.Lib.Errexit
import UtilVserver.VserverStart
import UtilVserver.StartRollback
import UtilVserver.Lib.FileSystem
import UtilVserver.Unify
import UtilVserver.DeUnify
import UtilVserver.UnifyCopy
import UtilVserver.CopyMMap
import UtilVserver.Mkdir
import UtilVserver.Vhashify
import UtilVserver.PathInfo
import UtilVserver.Lib.DirTree
import UtilVserver.MkdirAncestors
import UtilVserver.OpenOrMkdir
import UtilVserver.MatchList
import UtilVserver.ExcludeList
import UtilVserver.Vunify
import UtilVserver.Vclone
import UtilVserver.SecureMount
import UtilVserver.Lib.Attachments
import UtilVserver.Interfaces
import UtilVserver.VcontextSync
import UtilVserver.Lib.BinarySearch
import UtilVserver.EnscVector
import UtilVserver.VserverStat
import UtilVserver.VserverStatCgroups
import UtilVserver.HashDirs
import UtilVserver.HashSlots
import UtilVserver.Lib.Decimal
import UtilVserver.CtxFiles
import UtilVserver.CompareVserver
import UtilVserver.VserverCtx
import UtilVserver.StaticContexts
import UtilVserver.Scriptlets
import UtilVserver.ScriptletsAgree
import UtilVserver.StartUndo
import UtilVserver.StartUndoRollback
import UtilVserver.Lib.Slots
import UtilVserver.VectorMemory
import UtilVserver.VectorRefines
import UtilVserver.VectorSorted
import UtilVserver.CommandArgv
import UtilVserver.Lib.Chains
import UtilVserver.ListSelfOrg
import UtilVserver.IattrFscompat
import UtilVserver.SystemdEscape
import UtilVserver.RebootMgr
import UtilVserver.FstabLines
import UtilVserver.Lib.ShellRead
import UtilVserver.UmountFstab
import UtilVserver.Lib.SlashPath
import UtilVserver.NamespaceCleanup
import UtilVserver.Lib.Loops
import UtilVserver.OptionLoops
import UtilVserver.Lib.LowestBit
import UtilVserver.Lo2Text
import UtilVserver.IsNumber
import UtilVserver.ParseLimit
import UtilVserver.Vlimit
import UtilVserver.ExecUlimit
import UtilVserver.Vkill
import UtilVserver.GenerateMac
import UtilVserver.ExitLikeProcess
import UtilVserver.Lockfile
import UtilVserver.KillSequence
import UtilVserver.Vsched
import UtilVserver.GetAllVservers
import UtilVserver.SetupInterface
import UtilVserver.PathAppend
import UtilVserver.Fmt
import UtilVserver.Lib.ByteBits
import UtilVserver.Naddress
import UtilVserver.Lib.DottedQuad
import UtilVserver.Ifspec
import UtilVserver.Mask2Prefix
import UtilVserver.H2ext
import UtilVserver.LoadDescription
import UtilVserver.Lib.DecimalText
import UtilVserver.StatColumns
import UtilVserver.PreloadEnv
import UtilVserver.HashBlocks
import UtilVserver.VserverName
import UtilVserver.ProcEntry
import UtilVserver.PersonalityFlags
import UtilVserver.Uptime
import UtilVserver.ProcessStat
import UtilVserver.Lib.HashChains
import UtilVserver.Reducecap
import UtilVserver.Vdlimit
import UtilVserver.Vdu
import UtilVserver.VisitDir
import UtilVserver.Vcopy
import UtilVserver.Fstool
import UtilVserver.InitMtab
import UtilVserver.IfaceRead
import UtilVserver.VpsOutput
import UtilVserver.MountData
import UtilVserver.DiskLimitsSurvive
import UtilVserver.VhashifyRuns
import UtilVserver.Vlogin
import UtilVserver.SystemdUnits
import UtilVserver.FstoolShow
import UtilVserver.Registry
import UtilVserver.Vwait
import UtilVserver.AttributesPrint
