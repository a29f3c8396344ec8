import KleidiCV.Utils
import KleidiCV.ParallelBatches
import KleidiCV.SmeThreadLimiter
import KleidiCV.Separable
import KleidiCV.Lib.Writes
import KleidiCV.Lib.Overwrite
import KleidiCV.Scale
import KleidiCV.ElementOperation
import KleidiCV.ThreadElementOperation
import KleidiCV.FlipImage
import KleidiCV.Rotate
import KleidiCV.ResizeLinear
import KleidiCV.GaussianBlurFixed
import KleidiCV.Yuv420Layout
import KleidiCV.Remap
import KleidiCV.RemapReference
import KleidiCV.Lib.Rank
import KleidiCV.Lib.Counters
import KleidiCV.MedianBlur
import KleidiCV.MedianBlurLargeHist
import KleidiCV.Lib.Window
import KleidiCV.MinMaxLoc
import KleidiCV.ThreadMinMaxLoc
import KleidiCV.Lib.BestOf
import KleidiCV.Lib.Tally
import KleidiCV.Lib.StoredRows
import KleidiCV.MinMax
import KleidiCV.ThreadMinMax
import KleidiCV.MedianBlurSmallHist
import KleidiCV.LucasKanadeCapacity
import KleidiCV.LucasKanadeScalable
import KleidiCV.ScalableBlocks
import KleidiCV.ScalableFlip
import KleidiCV.ScalableFlipImage
import KleidiCV.SmeTile
import KleidiCV.SmeRotateTranspose
import KleidiCV.TransposeInPlace
import KleidiCV.OpticalFlowCalc
import KleidiCV.Stack
import KleidiCV.Lib.FloodFill
import KleidiCV.CannyHysteresis
import KleidiCV.IndirectRows
import KleidiCV.SmcuTopology
import KleidiCV.OnlineCpuIds
import KleidiCV.Lib.TruthTable
import KleidiCV.Lib.SortingNetwork
import KleidiCV.MedianBlurSortingNetwork
import KleidiCV.ScalableSeparableFilter2D
import KleidiCV.Lib.WroteOnce
import KleidiCV.BlurAndDownsampleWorkspace
import KleidiCV.ScalableBlurAndDownsample
import KleidiCV.ScalableResizeToQuarter
import KleidiCV.ReadHexFile
import KleidiCV.WarpPerspective
import KleidiCV.GaussianHalfKernel
import KleidiCV.GaussianBlurArbitrary
import KleidiCV.CountNonZeros
import KleidiCV.Lib.Checked
import KleidiCV.ResizeGenericCoordinates
import KleidiCV.Sobel
import KleidiCV.Lib.Stamped
import KleidiCV.Scharr
import KleidiCV.ResizeToQuarter
import KleidiCV.LucasKanadeReference
import KleidiCV.YuvLanes
import KleidiCV.Yuv444
import KleidiCV.RgbToYuv422
import KleidiCV.Yuv422ToRgb
import KleidiCV.RgbToYuv420Lanes
import KleidiCV.SaturatingArithmetic
import KleidiCV.Lib.Tiles
import KleidiCV.Lib.WhileLoop
import KleidiCV.LoopRanges
import KleidiCV.Lib.StoredPrefix
import KleidiCV.PaddingHelpers
import KleidiCV.ScalablePaddingHelpers
import KleidiCV.Padding
import KleidiCV.ScalableResize8x8F32
import KleidiCV.HybridDispatch
import KleidiCV.ImageSymmetries
import KleidiCV.Lib.PixelMaps
import KleidiCV.Lib.Rearrangement
import KleidiCV.MergeSplit
import KleidiCV.RgbToRgb
import KleidiCV.GrayInPlace
