import SqueezeOS.Arm.Rules
import SqueezeOS.Flac.RestoreSignal
import SqueezeOS.Flac.LpcAsm
import SqueezeOS.Flac.LpcOrders
import SqueezeOS.Arm.Duff
import SqueezeOS.Flac.LpcGeneric
import SqueezeOS.Flac.LpcCall
import SqueezeOS.Flac.LpcRestore
import SqueezeOS.Flac.LpcWide
import SqueezeOS.Flac.FixedAsm
import SqueezeOS.Flac.FixedRestore
import SqueezeOS.Msp430.Irq
import SqueezeOS.Baby.Buttons
import SqueezeOS.Watchdog.Semaphore
import SqueezeOS.UBoot.FwEnv
import SqueezeOS.UBoot.ImageUpdate
import SqueezeOS.UBoot.Crc32
import SqueezeOS.UBoot.Flash
import SqueezeOS.Boot.Linuxrc
import SqueezeOS.Boot.UpgradeCuts
import SqueezeOS.UBoot.PowerFail
import SqueezeOS.UBoot.WriteErrors
import SqueezeOS.BitFields
import SqueezeOS.S3c2412.Clkdivn
import SqueezeOS.S3c2412.CpuFreq
import SqueezeOS.Baby.Epit
import SqueezeOS.Jive.Matrix
import SqueezeOS.Kernel.Guarded
import SqueezeOS.Kernel.Strings
import SqueezeOS.Fab4.Tsl2569
import SqueezeOS.Fab4.Ir
import SqueezeOS.Fab4.Locks
import SqueezeOS.Baby.Codec
import SqueezeOS.Fab4.HexValidity
import SqueezeOS.Fab4.HexBounds
import SqueezeOS.Fab4.HexImage
import SqueezeOS.ClockedLine
import SqueezeOS.Fab4.Psoc
import SqueezeOS.Fab4.IrControl
import SqueezeOS.Fab4.Lux
import SqueezeOS.Msp430.Registers
import SqueezeOS.Msp430.Rtc
import SqueezeOS.Msp430.TiTxt
import SqueezeOS.Msp430.Programmer
import SqueezeOS.Msp430.TiTxtFormat
import SqueezeOS.Msp430.TiTxtValidity
import SqueezeOS.UBoot.Stores
import SqueezeOS.UBoot.SetenvSafety
import SqueezeOS.UBoot.Printenv
import SqueezeOS.UBoot.ReadBounds
import SqueezeOS.Arm.Accesses
import SqueezeOS.Arm.Symbolic
import SqueezeOS.Flac.AccessBounds
import SqueezeOS.Flac.BlockSafety
import SqueezeOS.Faad.LookForHeader
import SqueezeOS.Boot.InterfaceName
import SqueezeOS.Boot.NetworkChoice
import SqueezeOS.Xargs
import SqueezeOS.Boot.Cleanup
import SqueezeOS.S3c2412.Announced
import SqueezeOS.S3c2412.PolicyRange
import SqueezeOS.Baby.Fec
import SqueezeOS.Baby.LineIn
import SqueezeOS.Baby.Headphone
import SqueezeOS.Baby.Effects
import SqueezeOS.Boot.FactoryReset
import SqueezeOS.ByteStore
import SqueezeOS.Ubi.Rename
import SqueezeOS.Boot.FactoryUpgrade
import SqueezeOS.WrappingCounter
import SqueezeOS.Imx35.SchedClock
import SqueezeOS.Imx35.MapOption
import SqueezeOS.Imx35.MapBounds
import SqueezeOS.Imx35.IrqThreads
import SqueezeOS.Imx35.Spdif
import SqueezeOS.Jive.Wheel
import SqueezeOS.Jive.WheelStop
import SqueezeOS.Jive.Irtx
import SqueezeOS.S3c2412.FindPll
import SqueezeOS.ErrorTerm
import SqueezeOS.Jive.Draw
import SqueezeOS.Msp430.TiTxtBounds
import SqueezeOS.Msp430.Scans
import SqueezeOS.Msp430.Ops
import SqueezeOS.Msp430.Bus
import SqueezeOS.Msp430.JtagFunc
import SqueezeOS.Msp430.Firmware
import SqueezeOS.Msp430.Upgrade
import SqueezeOS.Msp430.Responses
import SqueezeOS.DivisionRegister
import SqueezeOS.UBoot.CrcRemainder
import SqueezeOS.UBoot.BurstDamage
import SqueezeOS.UBoot.DurableHistory
import SqueezeOS.Msp430.Signature
import SqueezeOS.Flac.Lossless
import SqueezeOS.Msp430.FlashMemory
import SqueezeOS.Msp430.ReadBack
